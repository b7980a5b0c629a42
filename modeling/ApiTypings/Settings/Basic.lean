import ApiTypings.Json.Basic
import ApiTypings.Settings.Options
import ApiTypings.Storage.Location

/-!
The settings of a run.

Settings say what is read, what is generated and where it is written to. They are written as an
object with one field each; an object may have more fields than that, which are kept.
-/

namespace ApiTypings

/-- What is generated from a description. -/
inductive OutputFormat where
  | declarations
  | externs
  deriving DecidableEq, Repr, Inhabited

namespace OutputFormat

/-- The formats in the order in which messages list them. -/
def all : List OutputFormat := [.declarations, .externs]

def name : OutputFormat → String
  | .declarations => "dts"
  | .externs => "externs"

/-- The format of a name. -/
def ofName? (name : String) : Option OutputFormat := all.find? (·.name = name)

/-- Declarations are generated if nothing else is asked for. -/
def standard : OutputFormat := .declarations

@[simp] theorem ofName?_name (f : OutputFormat) : ofName? f.name = some f := by cases f <;> rfl

end OutputFormat

/-- The settings of a run. An empty output path stands for no output file, and `extra` holds the
fields that settings do not have. -/
structure Settings where
  inputPath : String
  outputPath : String
  format : OutputFormat
  generateEventTypes : Bool
  writeInheritance : Bool
  rootName : String
  baseEventType : String
  extra : Fields
  deriving Inhabited

namespace Settings

/-- The settings of a run of which nothing is known but the working directory. -/
def standard (directory : String) : Settings where
  inputPath := Location.join directory "api.json"
  outputPath := ""
  format := .standard
  generateEventTypes := Options.standard.generateEventTypes
  writeInheritance := Options.standard.writeInheritance
  rootName := Options.standard.rootName
  baseEventType := Options.standard.baseEventType
  extra := []

/-- The fields that settings have, in the order in which they are written. -/
def toFields (s : Settings) : Fields :=
  [("input_path", .str s.inputPath), ("output_path", .str s.outputPath),
    ("format", .str s.format.name), ("generate_event_types", .bool s.generateEventTypes),
    ("write_inheritance", .bool s.writeInheritance), ("root_name", .str s.rootName),
    ("base_event_type", .str s.baseEventType)] ++ s.extra

/-- The names of the fields that settings have. -/
def fieldNames : List String :=
  ["input_path", "output_path", "format", "generate_event_types", "write_inheritance",
    "root_name", "base_event_type"]

/-- The options of declarations under these settings. -/
def options (s : Settings) : Options :=
  ⟨s.generateEventTypes, s.writeInheritance, s.rootName, s.baseEventType⟩

end Settings

/-- The options as any object states them, whose names may be values of any kind. -/
structure StatedOptions where
  generateEventTypes : Bool
  writeInheritance : Bool
  rootName : Json
  baseEventType : Json
  deriving Inhabited

namespace StatedOptions

/-- A value, or another one in place of a value that counts as absent. -/
def orElse (v fallback : Json) : Json := if v.truthy then v else fallback

/-- Switches are read by whether their value counts as present; names that do not count as present
have their default. -/
def ofFields (fields : Fields) : StatedOptions where
  generateEventTypes := ((fields.get? "generate_event_types").map Json.truthy).getD
    Options.standard.generateEventTypes
  writeInheritance := ((fields.get? "write_inheritance").map Json.truthy).getD
    Options.standard.writeInheritance
  rootName := orElse (fields.get "root_name") (.str Options.standard.rootName)
  baseEventType := orElse (fields.get "base_event_type") (.str Options.standard.baseEventType)

end StatedOptions

end ApiTypings
