import ApiTypings.Declaration.File
import ApiTypings.Externs.File
import ApiTypings.Run.Job
import ApiTypings.Run.Result
import ApiTypings.Settings.Check
import ApiTypings.Storage.Artifact
import ApiTypings.Storage.Description

/-!
A run of the generator.

A run checks its settings, loads the API description unless it is given, generates the text of the
chosen format and stores it if the settings name an output file. Files that cannot be read or
written and circles of inheritance end a run with a failure as its result; a malformed description
ends it with a fault.
-/

namespace ApiTypings.Run

/-- The text of the chosen format. -/
def generate (settings : Settings) (apis : Json) : Report String :=
  match settings.format with
  | .externs => Externs.generate apis settings.rootName
  | .declarations => Declaration.generate settings.options apis

/-- The number of records in a description. -/
def recordCount (apis : Json) : Except Fault Nat :=
  match apis with
  | .obj fields => .ok ((Fields.values fields).countP fun v => v.fields?.isSome)
  | _ => .error .notAnObject

variable {σ ε : Type} [FileSystem σ ε]

/-- The settings of a run; every finding is reported. -/
def checkedSettings (s : Surroundings) (given : Json) : Job σ Settings := do
  let (settings, warnings) := Settings.checkLenient s.directory given
  match given with
  | .obj _ => pure ()
  | _ => warnings.forM (Job.tell .warning .settings)
  warnings.forM fun warning => Job.tell .warning .run ("Configuration Warning: " ++ warning)
  pure settings

/-- The description at the input path. -/
def loadDescription (s : Surroundings) (settings : Settings) :
    Job σ (Except LoadError Description) := do
  match Description.load (← Job.disk) s.directory settings.inputPath with
  | .ok description =>
    Job.tell .debug .storage
      ("Loaded " ++ toString description.fields.length ++ " entries from " ++ settings.inputPath)
    pure (.ok description)
  | .error e =>
    e.fault?.forM fun fault => throw fault
    pure (.error e)

/-- Stores a text at the output path, if there is one. The value is where it was stored. -/
def storeText (s : Surroundings) (settings : Settings) (content : Artifact.Content) :
    Job σ (Except String String) := do
  if settings.outputPath = "" then pure (.ok "")
  else
    let location ← Job.ofExcept (Location.resolve s settings.outputPath settings.outputPath)
    match ← Job.ofStoring (Artifact.store s location content) with
    | .ok true =>
      Job.tell .info .storage ("Artifact saved to file: " ++ location)
      pure (.ok location)
    | .ok false => throw .notText
    | .error e =>
      (FileSystem.fault? σ e).forM fun fault => throw fault
      pure (.error ("Failed to write '" ++ location ++ "': " ++ FileSystem.message σ e))

/-- Generates and stores the text for a description. `halves` tells whether a text in it was made
from half of a surrogate pair; not even the size of a text can be told that cannot be encoded. -/
def process (s : Surroundings) (settings : Settings) (apis : Json) (halves : Bool) :
    Job σ RunResult := do
  match ← Job.ofReport (generate settings apis) with
  | .error fault =>
    match fault.message? with
    | some message =>
      Job.tell .error .run ("Generation aborted: " ++ message)
      pure (.failure message settings.toFields [])
    | none => throw fault
  | .ok text =>
    let content : Artifact.Content := ⟨text, halves⟩
    match ← storeText s settings content with
    | .error message =>
      Job.tell .error .run message
      pure (.failure message settings.toFields [])
    | .ok location =>
      let count ← Job.ofExcept (recordCount apis)
      Job.tell .info .run ("Generation finished: " ++ toString count ++ " API entries processed.")
      if content.bytes?.isNone then throw .notText
      pure (.success settings.toFields text location [("entries", .int count)])

/-- A run with given settings. Without a description, one is loaded from the input path. -/
def run (s : Surroundings) (given : Json) (apis : Json) : Job σ RunResult := do
  Job.tell .info .run "Generation started."
  let settings ← checkedSettings s given
  match apis with
  | .null =>
    let location ← Job.ofExcept (Location.resolve s settings.inputPath settings.inputPath)
    let settings := { settings with inputPath := location }
    match ← loadDescription s settings with
    | .ok description => process s settings (.obj description.fields) description.halves
    | .error e =>
      Job.tell .error .run e.message
      pure (.failure e.message settings.toFields [])
  | apis => process s settings apis false

end ApiTypings.Run
