import ApiTypings.CommandLine.Command
import ApiTypings.CommandLine.Usage
import Std.Time.Format

/-!
The program.

The files that a call may touch are read from the real disk, the call is worked out on what was
read, and what it changed is written back. Nothing is decided here.
-/

namespace ApiTypings.Program

/-- The location of a place. -/
def locationOf (p : Place) : String := "/" ++ Text.join "/" p

/-- The value of an action, if it does not fail. -/
def succeeding {α : Type} (action : IO α) : IO (Option α) :=
  try
    let a ← action
    pure (some a)
  catch _ => pure none

/-- What stands at a place of the real disk. -/
def observe (p : Place) : IO (Option DiskEntry) := do
  match ← succeeding (IO.FS.Handle.mk (locationOf p ++ "/.") .read) with
  | some _ => pure (some .directory)
  | none =>
    match ← succeeding (IO.FS.readBinFile (locationOf p)) with
    | some bytes => pure (some (.file bytes))
    | none => pure none

/-- The part of the real disk that lies at some places. -/
def observeAll (places : List Place) : IO Disk :=
  places.eraseDups.foldlM
    (fun d p => do
      match ← observe p with
      | some e => if p = [] then pure d else pure (d.put p e)
      | none => pure d)
    Disk.empty

/-- Writes a file by way of a draft, so that it never holds only a part of its bytes. -/
def replaceFile (location : String) (bytes : ByteArray) : IO Unit := do
  let draft := location ++ ".part"
  IO.FS.writeBinFile draft bytes
  IO.FS.rename draft location

/-- Brings the real disk from one state to another one. -/
def apply (before after : Disk) : IO Unit := do
  let shallow := after.entries.mergeSort fun a b => a.1.length ≤ b.1.length
  for (p, e) in shallow do
    if before.look p = some e then continue
    match e with
    | .directory => IO.FS.createDir (locationOf p)
    | .file bytes => replaceFile (locationOf p) bytes
  for (p, _) in before.entries do
    if (after.look p).isNone then IO.FS.removeFile (locationOf p)

/-- The text of a file, or the empty text if there is none. -/
def textOfFile (location : String) : IO String := do
  let bytes ← succeeding (IO.FS.readBinFile location)
  pure ((bytes.bind String.fromUTF8?).getD "")

def surroundings : IO Surroundings := do
  let directory ← IO.FS.realPath "."
  let bindings := Surroundings.variablesOfText (← textOfFile "/proc/self/environ")
  let homes := Surroundings.homesOfText (← textOfFile "/etc/passwd")
  pure ⟨toString directory, bindings, homes, (bindings.lookup "USER").getD "root"⟩

def now : IO Logging.Time := do
  let t ← Std.Time.PlainDateTime.now
  pure ⟨t.year.toNat, t.month.val.toNat, t.day.val.toNat, t.hour.val.toNat, t.minute.val.toNat,
    t.second.val.toNat, t.millisecond.val.toNat⟩

/-- Carries out a call whose arguments were understood. -/
def carryOut (a : CommandLine.Arguments) : IO UInt32 := do
  let s ← surroundings
  let places := (CommandLine.touched s a).flatMap (Location.passed s.directory)
  let before ← observeAll places
  let outcome := CommandLine.call s (← now) a before
  apply before outcome.session.disk
  IO.eprint (outcome.session.notes ++ outcome.session.console ++ outcome.stderr)
  IO.print outcome.stdout
  match outcome.exit with
  | .ok code => pure code.toUInt32
  | .error fault => do
    IO.eprintln ("ERROR: " ++ fault.description)
    pure 1

end ApiTypings.Program

/-- Exits with 0 if a text was generated, with 1 if that failed and with 2 if the arguments are
refused or there is no description. -/
def main (arguments : List String) : IO UInt32 :=
  match ApiTypings.CommandLine.Arguments.read arguments with
  | .ok a => ApiTypings.Program.carryOut a
  | .error .help => do
    IO.print ApiTypings.CommandLine.helpText
    pure 0
  | .error (.refused e) => do
    IO.eprintln (ApiTypings.CommandLine.refusal e)
    pure 2
