import ApiTypings.Storage.Disk
import ApiTypings.Storage.FileSystem

/-!
Changing a disk.

The disk is a file system. Its operations are those of a user who may read and write everything, on
a device that is never full: they fail because of what stands on the disk or of how a location is
written, and then only the directories that were created on the way are new.
-/

namespace ApiTypings

/-- A change of a disk that may fail. -/
abbrev DiskChange := Storing Disk DiskError

namespace Storing

variable {α : Type}

def fail (cause : DiskCause) (location : String) : DiskChange α := throw ⟨cause, location, none⟩

/-- Creates the directories that are missing between a place and one below it. -/
def makeDirectoriesFrom (root : String) (above : Place) : List String → DiskChange Unit
  | [] => pure ()
  | part :: rest => do
    let here := above ++ [part]
    let location := root ++ Text.join "/" here
    match (← get).look here, rest with
    | some .directory, _ => makeDirectoriesFrom root here rest
    | some (.file _), [] => fail .present location
    | some (.file _), next :: _ => fail .notDirectory (location ++ "/" ++ next)
    | none, _ =>
      if '\x00' ∈ part.toList then fail .unusable location
      else if Disk.longestName < part.utf8ByteSize ∨
          Disk.longestLocation < location.utf8ByteSize then
        fail .nameTooLong location
      else
        modify fun d => d.put here .directory
        makeDirectoriesFrom root here rest

/-- Creates the directory that a file is to stand in, with all directories above it. -/
def makeParents (s : Surroundings) (location : String) : DiskChange Unit :=
  let whole := Location.absolute s location
  makeDirectoriesFrom (Location.root whole) [] (Location.fold whole).dropLast

/-- Opens a file for writing, which is created or loses its former content. -/
def openFile (s : Surroundings) (location : String) : DiskChange Unit := do
  match (← get).writable s.directory location with
  | .error e => throw e
  | .ok place => modify fun d => d.put place (.file ByteArray.empty)

/-- Writes bytes at the end of a file. -/
def extend (s : Surroundings) (location : String) (bytes : ByteArray) : DiskChange Unit := do
  let d ← get
  match d.locate s.directory location with
  | .error cause => fail cause location
  | .ok place =>
    match d.look place with
    | none => fail .missing location
    | some .directory => fail .isDirectory location
    | some (.file held) => set (d.put place (.file (held ++ bytes)))

/-- Whether the last component of a location is the name of something. -/
def endsInName (location : String) : Bool :=
  match (Location.parts location).getLast? with
  | none => false
  | some part => part ≠ "." && part ≠ ".."

/-- Moves a file to another location, where it replaces a file that is there. -/
def rename (s : Surroundings) (source target : String) : DiskChange Unit := do
  let d ← get
  let refuse := fun (cause : DiskCause) => (throw ⟨cause, source, some target⟩ : DiskChange Unit)
  match d.locate s.directory source, d.locate s.directory target with
  | .error cause, _ => refuse cause
  | _, .error cause => refuse cause
  | .ok old, .ok new =>
    if !endsInName target then refuse .busy
    else
      match d.look old with
      | some (.file bytes) =>
        if Disk.asksDirectory target then refuse .notDirectory
        else if d.look new = some .directory then refuse .isDirectory
        else set ((d.erase old).put new (.file bytes))
      | _ => refuse .missing

/-- Removes a file. -/
def removeFile (s : Surroundings) (location : String) : DiskChange Unit := do
  let d ← get
  match d.locate s.directory location with
  | .error cause => fail cause location
  | .ok place =>
    match d.look place with
    | none => fail .missing location
    | some .directory => fail .isDirectory location
    | some (.file _) => set (d.erase place)

end Storing

instance : FileSystem Disk DiskError where
  message := DiskError.message
  fault? := DiskError.fault?
  read := Disk.read
  exists? := Disk.exists?
  makeParents := Storing.makeParents
  openFile := Storing.openFile
  extend := Storing.extend
  rename := Storing.rename
  removeFile := Storing.removeFile

end ApiTypings
