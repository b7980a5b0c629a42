import ApiTypings.Journal
import ApiTypings.Logging.Wiring

/-!
A logging session.

Records pass a gate, which has a level and hands them to the handlers that are attached to it.
Configuring attaches a handler and starts a listener unless that was done before; shutting down
takes both away. A record that nobody handles is noted if it is a warning or worse, but not if it is
one of the program's own.
-/

namespace ApiTypings.Logging

/-- The state of logging: the level of the gate and what is attached to it. What was written to the
console and noted beside it is kept, as is the disk with the log files. -/
structure Session where
  level : Int
  wiring : Wiring
  console : String
  notes : String
  disk : Disk

/-- A change of a session that may end in a fault, which leaves it as far as the change came. -/
abbrev Setup := ExceptT Fault (StateM Session)

namespace Setup

variable {α : Type}

/-- The outcome of a change of a session, and the session it leaves. -/
def on (x : Setup α) (session : Session) : Except Fault α × Session :=
  StateT.run (ExceptT.run x) session

def ofExcept (x : Except Fault α) : Setup α := ExceptT.mk (pure x)

/-- A failure of the disk is a value unless it is a fault. -/
def settle : Except DiskError α → Setup (Except DiskError α)
  | .error e => do
    e.fault?.forM fun fault => throw fault
    pure (.error e)
  | .ok a => pure (.ok a)

/-- A change of the session's disk. -/
def ofStoring (x : DiskChange α) : Setup (Except DiskError α) := do
  let session ← get
  let (outcome, disk) := x.on session.disk
  set { session with disk := disk }
  settle outcome

end Setup

namespace Session

/-- The level of a gate that nobody has set. -/
def initialLevel : Int := 30

/-- Logging before anything is configured. -/
def fresh (disk : Disk) : Session := ⟨initialLevel, .bare, "", "", disk⟩

/-- Takes away what is attached, and sets the level of a configuration. -/
def reset (c : Config) (session : Session) : Session :=
  { session with level := Config.levelValue c.level, wiring := session.wiring.detach }

/-- Lets records through to sinks. -/
def attach (sinks : List Sink) (session : Session) : Session :=
  { session with wiring := session.wiring.attach sinks }

/-- Writes a text beside the log. -/
def note (text : String) (session : Session) : Session :=
  { session with notes := session.notes ++ text }

/-! ### Configuring -/

/-- The console sink of a configuration. -/
def consoleSinks (c : Config) : Except Fault (List Sink) :=
  if c.console.truthy then do
    let template ← Template.ofJson c.consoleFormat
    pure [⟨.console, Config.levelValue c.level, template⟩]
  else pure []

/-- The log file at a location. -/
def openLog (s : Surroundings) (c : Config) (location : String) :
    Setup (Except DiskError LogFile) := do
  match ← Setup.ofStoring (Storing.makeParents s location) with
  | .error e => pure (.error e)
  | .ok _ =>
    let maxBytes ← Setup.ofExcept (Whole.ofJson c.maxBytes)
    let backupCount ← Setup.ofExcept (Whole.ofJson c.backupCount)
    match ← Setup.ofStoring (LogFile.create s location) with
    | .error e => pure (.error e)
    | .ok place => pure (.ok ⟨place, maxBytes.toNat, backupCount.toNat, c.timeLayout⟩)

/-- The file sink of a configuration. A file that cannot be opened is noted and left out. -/
def fileSinks (s : Surroundings) (c : Config) : Setup (List Sink) := do
  match ← Setup.ofExcept c.location? with
  | none => pure []
  | some location =>
    match ← openLog s c location with
    | .ok file =>
      let template ← Setup.ofExcept (Template.ofJson c.fileFormat)
      pure [⟨.file file, Config.levelValue c.level, template⟩]
    | .error e =>
      modify (note ("WARNING: cannot open log file '" ++ location ++ "': " ++ e.message ++ "\n"))
      pure []

/-- The sinks of a configuration. -/
def sinksOf (s : Surroundings) (c : Config) : Setup (List Sink) := do
  let console ← Setup.ofExcept (consoleSinks c)
  let files ← fileSinks s c
  pure (console ++ files)

/-- Sets up logging. What was configured before stays unless the change is forced. -/
def configure (s : Surroundings) (c : Config) (force : Bool) : Setup Unit := do
  if (← get).wiring.configured && !force then pure ()
  else
    modify (reset c)
    let sinks ← sinksOf s c
    if sinks.isEmpty then pure () else modify (attach sinks)

/-- Ends logging; it can be configured anew. -/
def shutdown (session : Session) : Session :=
  { session with wiring := { session.wiring.detach with configured := false } }

/-! ### Logging -/

/-- What is noted when a record cannot be laid out. -/
def layoutFailure : String := "--- Logging error ---\n"

/-- Writes a record to a sink, unless its level is too low. -/
def write (r : Record) (session : Session) (sink : Sink) : Session :=
  if r.level < sink.level then session
  else
    let layout := match sink.destination with
      | .file f => f.timeLayout
      | _ => .withMilliseconds
    match sink.template.line? layout r, sink.destination with
    | none, _ => session.note layoutFailure
    | some line, .console => { session with console := session.console ++ line ++ "\n" }
    | some line, .file f => { session with disk := f.append (line ++ "\n") session.disk }
    | some _, .unlinked => session

/-- The name under which the program's own records are filed, and below it. -/
def ownName : String := "tidocgen"

/-- Whether a record is one of the program's own. -/
def isOwn (r : Record) : Bool :=
  r.name == ownName || (ownName ++ ".").toList.isPrefixOf r.name.toList

/-- The least level of a record that is noted if nobody handles it. -/
def lastResortLevel : Int := 30

/-- Deals with a record that nobody handles. -/
def resort (r : Record) (session : Session) : Session :=
  if r.level < lastResortLevel ∨ isOwn r then session else session.note (r.message ++ "\n")

/-- Sends a record on its way. -/
def log (session : Session) (r : Record) : Session :=
  if r.level < session.level then session
  else if session.wiring.handlers.isEmpty then session.resort r
  else session.wiring.sinks.foldl (write r) session

/-- Sends the entries of a journal on their way, all at one time. -/
def logEntries (time : Time) (entries : List Entry) (session : Session) : Session :=
  entries.foldl (fun session e => session.log ⟨e.level.rank, e.topic.logger, e.message, time⟩)
    session

/-- Takes notice of a file that was moved to a place, where it replaces a log file. -/
def displace (place : Place) (session : Session) : Session :=
  let moved := fun (sink : Sink) => match sink.destination with
    | .file f => if f.place = place then { sink with destination := .unlinked } else sink
    | _ => sink
  { session with wiring := session.wiring.mapSinks moved }

end Session

end ApiTypings.Logging
