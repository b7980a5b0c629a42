import ApiTypings.Json.Display
import ApiTypings.Settings.Basic
import ApiTypings.Unicode.CharClass

/-!
Checking settings.

Every field of a given object is brought into the shape that settings have. What is not in shape
gives a finding: a lenient check takes a standard value instead, or the one that a number or a word
clearly stands for, and goes on; a strict check ends with its first finding. Fields that settings
do not have are kept as they are.
-/

namespace ApiTypings.Settings

/-- What is wrong with given settings. -/
inductive Finding where
  | notAnObject (kind : String)
  | wrongKind (field expected kind : String)
  | switchFromNumber (field : String) (number : Json)
  | switchFromWord (field word : String) (value : Bool)
  | unknownFormat (name : String)
  | dottedRoot (name : String)
  deriving Repr

namespace Finding

/-- What was found. -/
def message : Finding → String
  | .notAnObject kind => "Invalid config type: expected dict, received " ++ kind ++ "."
  | .wrongKind field expected kind =>
    "Invalid field '" ++ field ++ "': expected " ++ expected ++ ", received " ++ kind ++ "."
  | .switchFromNumber field number =>
    "Field '" ++ field ++ "' converted from number " ++ number.display ++ " to bool."
  | .switchFromWord field word value =>
    "Field '" ++ field ++ "' converted from '" ++ word ++ "' to " ++ (Json.bool value).display ++ "."
  | .unknownFormat name =>
    "Unknown output format '" ++ name ++ "'. Expected one of: " ++
      Text.join ", " (OutputFormat.all.map OutputFormat.name) ++ "."
  | .dottedRoot name => "Invalid root name '" ++ name ++ "': must not contain '.'."

/-- What a lenient check does about it, where the message does not say it. -/
def remedy? : Finding → Option String
  | .notAnObject _ => some "Using defaults."
  | .wrongKind _ _ _ => some "Using fallback."
  | .switchFromNumber _ _ => none
  | .switchFromWord _ _ _ => none
  | .unknownFormat _ => some ("Using '" ++ OutputFormat.standard.name ++ "'.")
  | .dottedRoot _ => some "Using fallback."

/-- The warning of a lenient check. -/
def warning (f : Finding) : String :=
  match f.remedy? with
  | some remedy => f.message ++ " " ++ remedy
  | none => f.message

end Finding

/-- A value and what was found on the way to it. -/
structure Checked (α : Type) where
  value : α
  findings : List Finding

namespace Checked

variable {α β : Type}

instance : Monad Checked where
  pure a := ⟨a, []⟩
  bind x f := ⟨(f x.value).value, x.findings ++ (f x.value).findings⟩

instance : LawfulMonad Checked :=
  LawfulMonad.mk' Checked (fun x => congrArg (Checked.mk x.value) (List.append_nil x.findings))
    (fun _ _ => rfl)
    (fun x f g => congrArg (Checked.mk _) (List.append_assoc x.findings _ _))

/-- A value taken in spite of a finding. -/
def despite (finding : Finding) (a : α) : Checked α := ⟨a, [finding]⟩

@[simp] theorem value_pure (a : α) : (pure a : Checked α).value = a := rfl

@[simp] theorem findings_pure (a : α) : (pure a : Checked α).findings = [] := rfl

@[simp] theorem value_bind (x : Checked α) (f : α → Checked β) :
    (x >>= f).value = (f x.value).value := rfl

@[simp] theorem findings_bind (x : Checked α) (f : α → Checked β) :
    (x >>= f).findings = x.findings ++ (f x.value).findings := rfl

@[simp] theorem value_despite (finding : Finding) (a : α) : (despite finding a).value = a := rfl

@[simp] theorem findings_despite (finding : Finding) (a : α) :
    (despite finding a).findings = [finding] := rfl

end Checked

/-- How findings are dealt with. Only a lenient check reads numbers and words as switches. -/
inductive Strictness where
  | lenient
  | strict
  deriving DecidableEq, Repr

/-! ### Single fields -/

/-- A text without blanks around it. An absent field and, where a text may not be empty, an empty
one have the standard value. -/
def checkText (field : String) (mayBeEmpty : Bool) (standard : String) : Json → Checked String
  | .null => pure standard
  | .str s =>
    let trimmed := Text.trim s
    pure (if trimmed = "" ∧ !mayBeEmpty then standard else trimmed)
  | v => .despite (.wrongKind field "str" v.kindName) standard

/-- The words for a switch that is on. -/
def onWords : List String := ["true", "1", "yes", "y", "on"]

/-- The words for a switch that is off. -/
def offWords : List String := ["false", "0", "no", "n", "off"]

/-- The position of a switch that a word stands for, whatever its case. -/
def switchOfWord? (word : String) : Option Bool :=
  let plain := Unicode.lower (Text.trim word)
  if plain ∈ onWords then some true else if plain ∈ offWords then some false else none

/-- The position of a switch that a number stands for. -/
def switchOfNumber? (v : Json) : Option Bool :=
  match v with
  | .int _ | .float _ =>
    if v.nameKey? = some (.whole 1) then some true
    else if v.nameKey? = some (.whole 0) then some false
    else none
  | _ => none

/-- The position of a switch that a value of another kind clearly stands for. -/
def convertSwitch? (field : String) (v : Json) : Option (Finding × Bool) :=
  match v with
  | .str word => (switchOfWord? word).map fun b => (.switchFromWord field word b, b)
  | v => (switchOfNumber? v).map fun b => (.switchFromNumber field v, b)

/-- A switch. An absent one has the standard position. -/
def checkSwitch (strictness : Strictness) (field : String) (standard : Bool) : Json → Checked Bool
  | .null => pure standard
  | .bool b => pure b
  | v =>
    let refused := Checked.despite (.wrongKind field "bool" v.kindName) standard
    match strictness with
    | .strict => refused
    | .lenient =>
      match convertSwitch? field v with
      | some (finding, b) => .despite finding b
      | none => refused

/-- The format of a name, whatever its case. -/
def checkFormat (name : String) : Checked OutputFormat :=
  match OutputFormat.ofName? (Unicode.lower name) with
  | some format => pure format
  | none => .despite (.unknownFormat name) .standard

/-- The name of the global scope, which is a single name and no path. -/
def checkRoot (standard name : String) : Checked String :=
  if '.' ∈ name.toList then .despite (.dottedRoot name) standard else pure name

/-! ### Whole settings -/

/-- The fields of an object that settings do not have. -/
def extraFields (given : Fields) : Fields := given.filter fun f => f.1 ∉ fieldNames

/-- The settings that an object states. The kinds of all fields are checked before what they say. -/
def checkFields (strictness : Strictness) (standard : Settings) (given : Fields) :
    Checked Settings := do
  let text := fun (field : String) (value : String) =>
    checkText field false value (given.get field)
  let switch := fun (field : String) (value : Bool) =>
    checkSwitch strictness field value (given.get field)
  let inputPath ← text "input_path" standard.inputPath
  let outputPath ← checkText "output_path" true standard.outputPath (given.get "output_path")
  let formatName ← text "format" standard.format.name
  let rootName ← text "root_name" standard.rootName
  let baseEventType ← text "base_event_type" standard.baseEventType
  let generateEventTypes ← switch "generate_event_types" standard.generateEventTypes
  let writeInheritance ← switch "write_inheritance" standard.writeInheritance
  let format ← checkFormat formatName
  let rootName ← checkRoot standard.rootName rootName
  pure ⟨inputPath, outputPath, format, generateEventTypes, writeInheritance, rootName,
    baseEventType, extraFields given⟩

/-- The settings that a value states, and what was found wrong with it. -/
def check (strictness : Strictness) (standard : Settings) : Json → Checked Settings
  | .obj given => checkFields strictness standard given
  | v => .despite (.notAnObject v.kindName) standard

/-- The settings that a value states, with a warning for each finding. -/
def checkLenient (directory : String) (given : Json) : Settings × List String :=
  let checked := check .lenient (Settings.standard directory) given
  (checked.value, checked.findings.map Finding.warning)

/-- The settings that a value states, or the first finding. -/
def checkStrict (directory : String) (given : Json) : Except Finding Settings :=
  let checked := check .strict (Settings.standard directory) given
  match checked.findings with
  | [] => .ok checked.value
  | finding :: _ => .error finding

end ApiTypings.Settings
