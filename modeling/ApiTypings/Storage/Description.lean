import ApiTypings.Fault
import ApiTypings.Json.Reader
import ApiTypings.Storage.FileSystem
import ApiTypings.Text.Utf8

/-!
Loading an API description.

A description is a file that holds one JSON object, written in UTF-8. What keeps a file from being
read as one is reported by its cause: the file itself, its encoding, its syntax or the kind of its
value, in this order. A location that no file can have, and a text beyond the limits of reading,
are faults instead.
-/

namespace ApiTypings

/-- Why a file is not an API description. -/
inductive LoadCause where
  | unreadable (message : String)
  /-- The file cannot even be sought. -/
  | unusable (fault : Fault)
  | notUtf8 (e : Text.Utf8Error)
  | invalid (e : Json.ReadError)
  | notAnObject (kind : String)

/-- A file that cannot be loaded, by its location. -/
structure LoadError where
  location : String
  cause : LoadCause

def LoadError.message (e : LoadError) : String :=
  let name := "'" ++ e.location ++ "'"
  match e.cause with
  | .unreadable message => "Could not read API description " ++ name ++ ": " ++ message
  | .unusable fault => "Could not seek API description " ++ name ++ ": " ++ fault.description
  | .notUtf8 cause => "API description " ++ name ++ " is not valid UTF-8: " ++ cause.message
  | .invalid cause =>
    "Invalid JSON in " ++ name ++ ": " ++ cause.cause.message ++ " (line " ++ toString cause.line ++ ")"
  | .notAnObject kind =>
    "API description " ++ name ++ " must be a JSON object, received " ++ kind ++ "."

/-- The fault that a failure amounts to, if it is no matter of the file. -/
def LoadError.fault? (e : LoadError) : Option Fault :=
  match e.cause with
  | .unusable fault => some fault
  | .invalid ⟨.tooDeep, _⟩ => some .tooDeep
  | .invalid ⟨.tooManyDigits count, _⟩ => some (.tooManyDigits count)
  | _ => none

/-- An API description as it was read: its fields, and whether some text in it was made from half of
a surrogate pair. -/
structure Description where
  fields : Fields
  halves : Bool

namespace Description

instance : Coe Description Fields := ⟨fields⟩

/-- The text of a file with unified line ends. -/
def textOfBytes (bytes : ByteArray) : Except LoadCause (List Char) :=
  match Text.decodeUtf8 bytes.data.toList with
  | .ok cs => .ok (Text.unifyLineEnds [] cs)
  | .error e => .error (.notUtf8 e)

/-- The object written in a text. -/
def objectOfText (cs : List Char) : Except LoadCause Fields :=
  match Json.read cs with
  | .ok (.obj fields) => .ok fields
  | .ok v => .error (.notAnObject v.kindName)
  | .error e => .error (.invalid e)

/-- Why the file at a location cannot be read. -/
def causeOfError (σ : Type) {ε : Type} [FileSystem σ ε] (e : ε) : LoadCause :=
  match FileSystem.fault? σ e with
  | some fault => .unusable fault
  | none => .unreadable (FileSystem.message σ e)

/-- The object that a file holds. -/
def load {σ ε : Type} [FileSystem σ ε] (d : σ) (directory location : String) :
    Except LoadError Description :=
  let contents : Except LoadCause Description := do
    let bytes ← (FileSystem.read d directory location).mapError (causeOfError σ)
    let cs ← textOfBytes bytes
    let fields ← objectOfText cs
    pure ⟨fields, Json.spellsHalf cs⟩
  contents.mapError (LoadError.mk location)

end Description

end ApiTypings
