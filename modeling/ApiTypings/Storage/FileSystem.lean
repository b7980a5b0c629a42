import ApiTypings.Fault
import ApiTypings.Storage.Surroundings

/-!
What the program asks of a file system.

All that the program knows of files it learns from the operations below. An operation succeeds or
fails with an error, and leaves a state behind in both cases: a sequence of operations that fails
half-way keeps what was done before. When an operation fails, and what it has done by then, is a
matter of the system.
-/

namespace ApiTypings

/-- A computation on the state of a file system that may fail. -/
abbrev Storing (σ ε : Type) := ExceptT ε (StateM σ)

namespace Storing

variable {σ ε α : Type}

/-- The outcome of a computation on a state, and the state it leaves. -/
def on (x : Storing σ ε α) (d : σ) : Except ε α × σ := StateT.run (ExceptT.run x) d

/-- A computation whose failure is a value. -/
def attempt (x : Storing σ ε α) : Storing σ ε (Except ε α) :=
  ExceptT.mk do
    let outcome ← ExceptT.run x
    pure (.ok outcome)

end Storing

/-- The operations of a file system with states of one type and errors of another one. -/
class FileSystem (σ : Type) (ε : outParam Type) where
  /-- What messages say of an error. -/
  message : ε → String
  /-- The fault that an error amounts to, if it is none that the program reports. -/
  fault? : ε → Option Fault
  /-- The bytes of the file at a location, which may be relative to a directory. -/
  read (d : σ) (directory location : String) : Except ε ByteArray
  /-- Whether anything is found at a location. -/
  exists? (d : σ) (directory location : String) : Bool
  /-- Creates the directory that a file is to stand in, with all directories above it. -/
  makeParents (s : Surroundings) (location : String) : Storing σ ε Unit
  /-- Opens a file for writing, which is created or loses its former content. -/
  openFile (s : Surroundings) (location : String) : Storing σ ε Unit
  /-- Writes bytes at the end of a file that was opened, and closes it. -/
  extend (s : Surroundings) (location : String) (bytes : ByteArray) : Storing σ ε Unit
  /-- Moves a file to another location, where it replaces a file that is there. -/
  rename (s : Surroundings) (source target : String) : Storing σ ε Unit
  /-- Removes a file. -/
  removeFile (s : Surroundings) (location : String) : Storing σ ε Unit

/-- Writes a file, unless there are no bytes to write, which shows only when the file is open. The
value tells whether they were written. -/
def Storing.writeFile {σ ε : Type} [FileSystem σ ε] (s : Surroundings) (location : String)
    (bytes? : Option ByteArray) : Storing σ ε Bool := do
  FileSystem.openFile s location
  match bytes? with
  | none => pure false
  | some bytes =>
    FileSystem.extend s location bytes
    pure true

end ApiTypings
