import ApiTypings.Journal
import ApiTypings.Storage.FileSystem

/-!
Jobs: computations that read and change a file system, write to the journal and may end in a fault.
What a job wrote to the journal and to files before a fault remains.
-/

namespace ApiTypings

/-- A computation on a file system that writes to the journal and may end in a fault. -/
abbrev Job (σ : Type) := ExceptT Fault (StateT σ Logged)

namespace Job

variable {σ ε α : Type}

/-- What a job leaves behind: its outcome, the disk, and the entries it wrote. -/
structure Ending (σ α : Type) where
  outcome : Except Fault α
  disk : σ
  log : List Entry

/-- A job done on a disk. -/
def on (x : Job σ α) (d : σ) : Ending σ α :=
  let run := StateT.run (ExceptT.run x) d
  ⟨run.value.1, run.value.2, run.log⟩

def tell (level : Level) (topic : Topic) (message : String) : Job σ Unit :=
  ExceptT.lift (StateT.lift (Logged.tell level topic message))

def ofExcept (x : Except Fault α) : Job σ α := ExceptT.mk (pure x)

/-- The part of a job that does not touch the disk, with its fault as a value. -/
def ofReport (x : Report α) : Job σ (Except Fault α) :=
  ExceptT.lift (StateT.lift (⟨x.outcome, x.log⟩ : Logged (Except Fault α)))

/-- A change of the disk, with its failure as a value. -/
def ofStoring (x : Storing σ ε α) : Job σ (Except ε α) :=
  ExceptT.mk fun d => pure ((x.on d).map .ok id)

/-- The disk as it stands. -/
def disk : Job σ σ := ExceptT.lift (StateT.get)

end Job

end ApiTypings
