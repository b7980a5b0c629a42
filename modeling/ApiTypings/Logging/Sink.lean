import ApiTypings.Json.Display
import ApiTypings.Logging.Template
import ApiTypings.Number.Whole
import ApiTypings.Storage.Change
import ApiTypings.Unicode.CharClass

/-!
Where log lines go.

A sink writes the records from its level upwards, to the console or to a file. A file that would
grow to its limit is put aside first: it gets the number one, older files count up, and the oldest
one is dropped. If another file takes the place of a log file, further lines still go to the former
one, which nobody finds any more.
-/

namespace ApiTypings.Logging

/-- The destinations and the level of logging. They may be values of any kind, each of which is
looked at only when it is needed. -/
structure Config where
  level : Json
  console : Json
  logFile : Json
  maxBytes : Json
  backupCount : Json
  consoleFormat : Json
  fileFormat : Json
  timeLayout : TimeLayout

namespace Config

/-- Records from the level of information on go to the console and nowhere else. -/
def standard : Config where
  level := .str "INFO"
  console := .bool true
  logFile := .null
  maxBytes := .int 1048576
  backupCount := .int 2
  consoleFormat := .str "%(levelname)s | %(message)s"
  fileFormat := .str "%(asctime)s | %(levelname)s | %(name)s | %(message)s"
  timeLayout := .standard

/-- The logging of the command line. -/
def commandLine (debug : Bool) (logFile : Json) : Config :=
  { standard with level := .str (if debug then "DEBUG" else "INFO"), logFile := logFile }

/-- The level of a name, whatever its case. -/
def levelOfName? (name : String) : Option Int :=
  match name with
  | "DEBUG" => some 10
  | "INFO" => some 20
  | "WARNING" => some 30
  | "WARN" => some 30
  | "ERROR" => some 40
  | "CRITICAL" => some 50
  | _ => none

/-- The level of information, which stands in for every level that is not known. -/
def standardLevel : Int := 20

/-- The level as a number. -/
def levelValue (level : Json) : Int :=
  if level.truthy then
    (levelOfName? (Unicode.upper (Text.trim level.display))).getD standardLevel
  else standardLevel

/-- The location of the log file, if there is to be one. -/
def location? (c : Config) : Except Fault (Option String) :=
  if c.logFile.truthy then
    match c.logFile with
    | .str location => .ok (some location)
    | _ => .error (.wrongKind "location")
  else .ok none

end Config

/-- A log file, by its place. -/
structure LogFile where
  place : Place
  maxBytes : Nat
  backups : Nat
  timeLayout : TimeLayout

/-- Where the lines of a sink go. -/
inductive Destination where
  | console
  | file (f : LogFile)
  /-- A file whose place was taken by another one. -/
  | unlinked

/-- A sink: its destination, its least level and the layout of its lines. -/
structure Sink where
  destination : Destination
  level : Int
  template : Template

namespace LogFile

/-- The place of the file that was put aside some number of files ago. -/
def backup (f : LogFile) (n : Nat) : Place :=
  match f.place.getLast? with
  | some name => f.place.dropLast ++ [name ++ "." ++ toString n]
  | none => []

/-- What stands at a place, if anything does, moved to another place. A directory takes along what
stands below it. -/
def move (d : Disk) (source target : Place) : Disk :=
  match d.look source with
  | none => d
  | some (.file bytes) => (d.erase source).put target (.file bytes)
  | some .directory =>
    ⟨(d.erase target).entries.map fun e =>
      if source.isPrefixOf e.1 then (target ++ e.1.drop source.length, e.2) else e⟩

/-- Puts the file aside. Without backups it stays where it is and goes on growing. -/
def rotate (f : LogFile) (d : Disk) : Disk :=
  if f.backups = 0 then d
  else
    let numbers := (List.range (f.backups - 1)).reverse.map (· + 1)
    let counted := numbers.foldl (fun d n => move d (f.backup n) (f.backup (n + 1))) d
    move counted f.place (f.backup 1)

/-- Whether a line brings the file to its limit. The file is measured in bytes and the line in
characters. -/
def isFull (f : LogFile) (d : Disk) (line : String) : Bool :=
  let size := ((d.file? f.place).map ByteArray.size).getD 0
  0 < f.maxBytes && f.maxBytes ≤ size + line.length

/-- Adds a line, which ends in its line feed. -/
def append (f : LogFile) (line : String) (d : Disk) : Disk :=
  let d := if f.isFull d line then f.rotate d else d
  let bytes := (d.file? f.place).getD ByteArray.empty
  d.put f.place (.file (bytes ++ line.toUTF8))

/-- Makes sure that a log file exists in its directory. -/
def create (s : Surroundings) (location : String) : DiskChange Place := do
  let whole := Location.absolute s location
  match (← get).writable s.directory whole with
  | .error e => throw e
  | .ok place =>
    modify fun d => d.put place (.file ((d.file? place).getD ByteArray.empty))
    pure place

end LogFile

end ApiTypings.Logging
