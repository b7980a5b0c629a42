import ApiTypings.Storage.FileSystem
import ApiTypings.Text.Utf8

/-!
Storing a generated text.

The text is written to a draft beside its destination and then moved there, so that the destination
never holds a part of it. Whatever happens, the draft is removed in the end if it is still found.
-/

namespace ApiTypings.Artifact

/-- A text to be stored. Half of a surrogate pair that stands on its own is no character and cannot
be encoded; in a text made from such halves the replacement character stands for them. -/
structure Content where
  text : String
  halves : Bool

namespace Content

instance : Coe String Content := ⟨fun text => ⟨text, false⟩⟩

/-- The bytes of a text, unless it cannot be encoded. -/
def bytes? (c : Content) : Option ByteArray :=
  if c.halves && c.text.toList.contains Text.replacementChar then none else some c.text.toUTF8

end Content

/-- The location of the draft of a text. -/
def draft (location : String) : String := location ++ ".tmp"

variable {σ ε : Type} [FileSystem σ ε]

/-- Removes the draft of a text if there is one. -/
def discardDraft (s : Surroundings) (location : String) : Storing σ ε Unit := do
  if FileSystem.exists? (← get) s.directory (draft location) then
    FileSystem.removeFile s (draft location)

/-- Writes the draft of a text and moves it to its destination. The value tells whether that was
done: a text that cannot be encoded is given up. -/
def publish (s : Surroundings) (location : String) (content : Content) : Storing σ ε Bool := do
  if ← Storing.writeFile s (draft location) content.bytes? then
    FileSystem.rename s (draft location) location
    pure true
  else pure false

/-- Stores a text at a location, in directories that are created as needed. The value tells whether
the text could be encoded. -/
def store (s : Surroundings) (location : String) (content : Content) : Storing σ ε Bool := do
  FileSystem.makeParents s location
  let outcome ← Storing.attempt (publish s location content)
  discardDraft s location
  match outcome with
  | .ok encoded => pure encoded
  | .error e => throw e

end ApiTypings.Artifact
