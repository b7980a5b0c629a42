import ApiTypings.CommandLine.Arguments
import ApiTypings.Json.Printer
import ApiTypings.Logging.Session
import ApiTypings.Run.Generate

/-!
The command line.

A call sets up logging, takes its settings from the arguments and hands them to a run. The generated
text goes to the standard output unless it is stored; everything about the call goes to the standard
error output. The exit code tells whether a text was generated, and whether there was a description
to generate it from.
-/

namespace ApiTypings.CommandLine

/-- What a call leaves behind: its exit code or the fault that ended it, what it wrote to the
standard outputs, and the state of logging, which holds the disk. -/
structure Outcome where
  exit : Except Fault Nat
  stdout : String
  stderr : String
  session : Logging.Session

def exitOk : Nat := 0

def exitFailed : Nat := 1

def exitNoInput : Nat := 2

/-- The text by which a call with these arguments is refused. -/
def refusal (e : UsageError) : String := "tidocgen: error: " ++ e.message

/-- A text with a line feed at its end. -/
def endLine (text : String) : String :=
  if text.toList.getLast? = some '\n' then text else text ++ "\n"

/-- A value as it is shown: one field a line, with a line feed at the end. -/
def shown (fields : Fields) : String := Json.indented 2 0 (.obj fields) ++ "\n"

/-- The settings that arguments ask for, with a warning for each finding. -/
def settings (s : Surroundings) (a : Arguments) : Settings × List String :=
  let standard := (Settings.standard s.directory).toFields
  Settings.checkLenient s.directory (.obj (Arguments.override standard a.overrides))

/-- What a result writes to the standard output and to the standard error output. -/
def present (asJson : Bool) (r : RunResult) : String × String :=
  if asJson then (shown r.report, "")
  else if !r.ok then ("", "ERROR: " ++ r.error ++ "\n")
  else if r.outputPath ≠ "" then
    ("Generated " ++ r.format.display ++ ": " ++ r.outputPath ++ "\nLines: " ++
      (r.summary.get "lines").display ++ "\n", "")
  else (endLine r.text, "")

/-- The place of the file that a run stored a text in, if it did. -/
def storedAt? (outcome : Except Fault RunResult) : Option Place :=
  match outcome with
  | .ok r => if r.ok ∧ r.outputPath ≠ "" then some (Location.fold r.outputPath) else none
  | .error _ => none

/-- A run with given settings, all its entries being sent to the log. A text that is stored in place
of the log file puts an end to that file. -/
def execute (s : Surroundings) (time : Logging.Time) (asJson : Bool) (settings : Settings)
    (session : Logging.Session) : Outcome :=
  let ending := (Run.run s (.obj settings.toFields) .null).on session.disk
  let session := { session with disk := ending.disk }
  let session := match storedAt? ending.outcome with
    | some place => session.displace place
    | none => session
  let session := session.logEntries time ending.log
  match ending.outcome with
  | .error fault => ⟨.error fault, "", "", session⟩
  | .ok r =>
    let (stdout, stderr) := present asJson r
    ⟨.ok (if r.ok then exitOk else exitFailed), stdout, stderr, session⟩

/-- Sends a message of the command line to the log. -/
def tell (time : Logging.Time) (level : Level) (message : String) (session : Logging.Session) :
    Logging.Session :=
  session.logEntries time [⟨level, .commandLine, message⟩]

/-- Sends what was found wrong with the settings to the log. -/
def warn (time : Logging.Time) (warnings : List String) (session : Logging.Session) :
    Logging.Session :=
  warnings.foldl (fun session warning => tell time .warning ("Configuration: " ++ warning) session)
    session

/-- A call whose arguments were understood, once logging is set up. -/
def proceed (s : Surroundings) (time : Logging.Time) (a : Arguments) (session : Logging.Session) :
    Outcome :=
  let (settings, warnings) := settings s a
  let session := warn time warnings session
  if a.dumpConfig then ⟨.ok exitOk, shown settings.toFields, "", session⟩
  else if !session.disk.isFile s.directory settings.inputPath then
    let message := "Input file does not exist: " ++ settings.inputPath
    ⟨.ok exitNoInput, "", "ERROR: " ++ message ++ "\n", tell time .error message session⟩
  else execute s time a.json settings session

/-- The logging that arguments ask for. -/
def loggingOf (a : Arguments) : Logging.Config :=
  .commandLine a.debug ((a.logFile.map OptionValue.toJson).getD .null)

/-- A call whose arguments were understood. -/
def call (s : Surroundings) (time : Logging.Time) (a : Arguments) (disk : Disk) : Outcome :=
  match (Logging.Session.configure s (loggingOf a) false).on (.fresh disk) with
  | (.ok _, session) => proceed s time a session
  | (.error fault, session) => ⟨.error fault, "", "", session⟩

/-- The locations of files that a call may read or write. -/
def touched (s : Surroundings) (a : Arguments) : List String :=
  let (settings, _) := settings s a
  let normalized := fun (location : String) => Location.normalize s location location
  let output := normalized settings.outputPath
  let backups := ((Whole.ofJson (loggingOf a).backupCount).toOption.getD 0).toNat
  let log := match a.logFile with
    | some (.text location) =>
      location :: (List.range backups).map fun n => location ++ "." ++ toString (n + 1)
    | _ => []
  [settings.inputPath, normalized settings.inputPath] ++
    (if settings.outputPath = "" then [] else [output, Artifact.draft output]) ++ log

/-- A call of the command. -/
def invoke (s : Surroundings) (time : Logging.Time) (arguments : List String) (disk : Disk) :
    Except Stop Outcome :=
  (Arguments.read arguments).map fun a => call s time a disk

end ApiTypings.CommandLine
