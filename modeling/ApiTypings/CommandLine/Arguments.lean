import ApiTypings.Settings.Basic
import ApiTypings.Text.Quoted
import ApiTypings.Unicode.CharClass

/-!
The arguments of the command line.

Every argument is first told apart by its form: an option with or without a value attached to it, a
plain word, or the mark behind which every argument is a plain word. A long option may be shortened
as long as it stays clear which one is meant. Then the options are taken one after another, each
with the value attached to it or with the plain word that follows it. Plain words that no option
takes, and unknown options, are refused at the end.
-/

namespace ApiTypings.CommandLine

/-- The options that take a value. -/
inductive ValueOption where
  | input
  | output
  | format
  | rootName
  | baseEventType
  | logFile
  deriving DecidableEq, Repr

/-- The options that are either given or not. -/
inductive Toggle where
  | noEventTypes
  | inheritance
  | dumpConfig
  | json
  | debug
  deriving DecidableEq, Repr

/-- What an option does. -/
inductive Action where
  | help
  | store (option : ValueOption)
  | set (toggle : Toggle)
  deriving DecidableEq, Repr

namespace Action

/-- The names of an option. -/
def names : Action → List String
  | .help => ["-h", "--help"]
  | .store .input => ["-i", "--input"]
  | .store .output => ["-o", "--output"]
  | .store .format => ["-f", "--format"]
  | .set .noEventTypes => ["--no-event-types"]
  | .set .inheritance => ["--inheritance"]
  | .store .rootName => ["--root-name"]
  | .store .baseEventType => ["--base-event-type"]
  | .set .dumpConfig => ["--dump-config"]
  | .set .json => ["--json"]
  | .store .logFile => ["--log-file"]
  | .set .debug => ["--debug"]

/-- The options in the order in which messages list them. -/
def all : List Action :=
  [.help, .store .input, .store .output, .store .format, .set .noEventTypes, .set .inheritance,
    .store .rootName, .store .baseEventType, .set .dumpConfig, .set .json, .store .logFile,
    .set .debug]

/-- All names of options, each with its option. -/
def table : List (String × Action) := all.flatMap fun a => a.names.map fun name => (name, a)

/-- Whether an option takes a value. -/
def takesValue : Action → Bool
  | .store _ => true
  | _ => false

end Action

/-- The value of an option. The mark that ends the options is no text, and an option that has it
attached as its value has an empty one. -/
inductive OptionValue where
  | text (s : String)
  | empty
  deriving DecidableEq, Repr, Inhabited

namespace OptionValue

/-- The mark behind which every argument is a plain word. -/
def endMark : String := "--"

/-- The value that is attached to an option. -/
def ofText (s : String) : OptionValue := if s = endMark then .empty else .text s

/-- A value as settings have it: an empty one is an empty list. -/
def toJson : OptionValue → Json
  | .text s => .str s
  | .empty => .arr []

end OptionValue

/-- The arguments of a call. -/
structure Arguments where
  input : Option OptionValue
  output : Option OptionValue
  format : Option OptionValue
  rootName : Option OptionValue
  baseEventType : Option OptionValue
  logFile : Option OptionValue
  noEventTypes : Bool
  inheritance : Bool
  dumpConfig : Bool
  json : Bool
  debug : Bool
  deriving DecidableEq, Repr, Inhabited

namespace Arguments

/-- The arguments of a call without any. -/
def none : Arguments :=
  ⟨.none, .none, .none, .none, .none, .none, false, false, false, false, false⟩

def store (a : Arguments) (value : OptionValue) : ValueOption → Arguments
  | .input => { a with input := some value }
  | .output => { a with output := some value }
  | .format => { a with format := some value }
  | .rootName => { a with rootName := some value }
  | .baseEventType => { a with baseEventType := some value }
  | .logFile => { a with logFile := some value }

def set (a : Arguments) : Toggle → Arguments
  | .noEventTypes => { a with noEventTypes := true }
  | .inheritance => { a with inheritance := true }
  | .dumpConfig => { a with dumpConfig := true }
  | .json => { a with json := true }
  | .debug => { a with debug := true }

/-- What the arguments change in the settings. A value that is not given is `null`, and a switch
that is not given is left out. -/
def overrides (a : Arguments) : Fields :=
  let text := fun (value : Option OptionValue) => (value.map OptionValue.toJson).getD .null
  [("input_path", text a.input), ("output_path", text a.output), ("format", text a.format),
    ("root_name", text a.rootName), ("base_event_type", text a.baseEventType)] ++
  (if a.noEventTypes then [("generate_event_types", .bool false)] else []) ++
  (if a.inheritance then [("write_inheritance", .bool true)] else [])

/-- Settings with the changes that were given, for fields that the settings have. -/
def override (settings overrides : Fields) : Fields :=
  overrides.foldl
    (fun fields change =>
      match change.2 with
      | .null => fields
      | value => if settings.has change.1 then fields.set change.1 value else fields)
    settings

end Arguments

/-- Why a call is refused. -/
inductive UsageError where
  | ambiguous (argument : String) (matching : List String)
  | valueExpected (action : Action)
  | valueIgnored (action : Action) (value : String)
  | invalidChoice (action : Action) (value : String) (choices : List String)
  | unrecognized (arguments : List String)
  deriving DecidableEq, Repr

namespace UsageError

/-- An option as messages name it. -/
def optionName (action : Action) : String := Text.join "/" action.names

def message : UsageError → String
  | .ambiguous argument matching =>
    "ambiguous option: " ++ argument ++ " could match " ++ Text.join ", " matching
  | .valueExpected action => "argument " ++ optionName action ++ ": expected one argument"
  | .valueIgnored action value =>
    "argument " ++ optionName action ++ ": ignored explicit argument " ++ Text.quoted value
  | .invalidChoice action value choices =>
    "argument " ++ optionName action ++ ": invalid choice: " ++ Text.quoted value ++
      " (choose from " ++ Text.join ", " (choices.map Text.quoted) ++ ")"
  | .unrecognized arguments => "unrecognized arguments: " ++ Text.join " " arguments

end UsageError

/-- Why the arguments of a call are not acted upon. -/
inductive Stop where
  | help
  | refused (e : UsageError)
  deriving DecidableEq, Repr

/-! ### The form of an argument -/

/-- An option as it was given: the name that was meant, and the value attached to it. What is
attached to an option with one letter may be further ones. -/
structure GivenOption where
  action : Action
  name : String
  value : Option String
  deriving DecidableEq, Repr

/-- The form of an argument. -/
inductive Form where
  | option (given : GivenOption)
  | unknownOption
  | word
  | endOfOptions
  deriving DecidableEq, Repr

/-- What stands before and after the first equals sign, if there is one. -/
def atEquals? (argument : List Char) : Option (String × String) :=
  match argument.dropWhile (· ≠ '=') with
  | _ :: value => some (String.ofList (argument.takeWhile (· ≠ '=')), String.ofList value)
  | [] => none

/-- The options that a shortened long name may stand for, and the value attached to it. -/
def longMatches (argument : List Char) : List GivenOption :=
  let (short, value) := match atEquals? argument with
    | some (short, value) => (short, some value)
    | none => (String.ofList argument, none)
  (Action.table.filter fun e => short.toList.isPrefixOf e.1.toList).map fun e =>
    ⟨e.2, e.1, value⟩

/-- The one-letter option that an argument starts with, with the rest as its value. -/
def shortMatches (argument : List Char) : List GivenOption :=
  (Action.table.filter fun e => e.1.toList = argument.take 2).map fun e =>
    ⟨e.2, e.1, some (String.ofList (argument.drop 2))⟩

/-- Whether an argument is a number below zero, which no option is. -/
def isNegativeNumber (argument : List Char) : Bool :=
  let cs := argument.drop 1
  let cs := if cs.getLast? = some '\n' then cs.dropLast else cs
  let whole := cs.takeWhile Unicode.isDecimalDigit
  match cs.dropWhile Unicode.isDecimalDigit with
  | [] => !whole.isEmpty
  | '.' :: places => !places.isEmpty && places.all Unicode.isDecimalDigit
  | _ => false

/-- The form of an argument that starts with a hyphen and has no option's full name. -/
def partialForm (argument : List Char) : Except UsageError Form :=
  let candidates := match argument with
    | '-' :: '-' :: _ => longMatches argument
    | _ => shortMatches argument
  match candidates with
  | [given] => .ok (.option given)
  | [] =>
    if isNegativeNumber argument ∨ ' ' ∈ argument then .ok .word else .ok .unknownOption
  | several => .error (.ambiguous (String.ofList argument) (several.map (·.name)))

/-- The form of an argument that is not the end of the options. -/
def formOf (argument : String) : Except UsageError Form :=
  match argument.toList with
  | '-' :: c :: rest =>
    match Action.table.lookup argument with
    | some action => .ok (.option ⟨action, argument, none⟩)
    | none =>
      match atEquals? ('-' :: c :: rest) with
      | some (name, value) =>
        match Action.table.lookup name with
        | some action => .ok (.option ⟨action, name, some value⟩)
        | none => partialForm ('-' :: c :: rest)
      | none => partialForm ('-' :: c :: rest)
  | _ => .ok .word

/-- Each argument with its form. Behind the end of the options every argument is a word. -/
def forms : List String → Except UsageError (List (String × Form))
  | [] => .ok []
  | argument :: rest =>
    if argument = OptionValue.endMark then .ok ((argument, .endOfOptions) :: rest.map fun a => (a, .word))
    else do
      let form ← formOf argument
      let others ← forms rest
      pure ((argument, form) :: others)

/-! ### Taking options -/

/-- One step that an option asks for, with the value that it takes. -/
inductive Effect where
  | help
  | store (option : ValueOption) (value : OptionValue)
  | set (toggle : Toggle)
  deriving DecidableEq, Repr

/-- The effect of an option that takes no value. -/
def plainEffect : Action → List Effect
  | .help => [.help]
  | .set toggle => [.set toggle]
  | .store _ => []

/-- What comes of one argument that is an option: its effects, and the option that still asks for a
value. -/
structure Taken where
  effects : List Effect
  pending : Option ValueOption

/-- Takes an option with the letters that follow its own. An option that takes a value takes them as
its value; behind any other one, each letter has to be an option. -/
def takeLetters : Action → List Char → Except UsageError Taken
  | .store option, [] => .ok ⟨[], some option⟩
  | .store option, value => .ok ⟨[.store option (.ofText (String.ofList value))], none⟩
  | action, [] => .ok ⟨plainEffect action, none⟩
  | action, letter :: rest =>
    match Action.table.lookup (String.ofList ['-', letter]) with
    | some following => do
      let taken ← takeLetters following rest
      pure { taken with effects := plainEffect action ++ taken.effects }
    | none => .error (.valueIgnored action (String.ofList (letter :: rest)))

/-- Whether an option is given by one letter. -/
def isShortName (name : String) : Bool := (name.toList.drop 1).head? != some '-'

/-- Takes the options of one argument. A value that is attached to an option by an equals sign may
be empty, but then it is no letter. -/
def takeOption (given : GivenOption) : Except UsageError Taken :=
  match given.action, given.value with
  | action, none => takeLetters action []
  | .store option, some value => .ok ⟨[.store option (.ofText value)], none⟩
  | action, some value =>
    if isShortName given.name ∧ value ≠ "" then takeLetters action value.toList
    else .error (.valueIgnored action value)

/-- The formats that can be chosen. -/
def formatChoices : List String := OutputFormat.all.map OutputFormat.name

/-- Does one step. -/
def Effect.apply (a : Arguments) : Effect → Except Stop Arguments
  | .help => .error .help
  | .set toggle => .ok (a.set toggle)
  | .store .format (.text value) =>
    if value ∈ formatChoices then .ok (a.store (.text value) .format)
    else .error (.refused (.invalidChoice (.store .format) value formatChoices))
  | .store option value => .ok (a.store value option)

/-- Takes all arguments from the left; the second value holds what no option has taken. -/
def takeAll (a : Arguments) (left : List String) :
    List (String × Form) → Except Stop (Arguments × List String)
  | [] => .ok (a, left)
  | (argument, form) :: rest =>
    match form with
    | .option given => do
      let taken ← (takeOption given).mapError Stop.refused
      match taken.pending, rest with
      | none, rest =>
        let a ← taken.effects.foldlM Effect.apply a
        takeAll a left rest
      | some option, (value, .word) :: rest =>
        let a ← (taken.effects ++ [Effect.store option (.text value)]).foldlM Effect.apply a
        takeAll a left rest
      | some option, _ => .error (.refused (.valueExpected (.store option)))
    | _ => takeAll a (left ++ [argument]) rest

/-- The arguments of a call. -/
def Arguments.read (arguments : List String) : Except Stop Arguments := do
  let forms ← (forms arguments).mapError Stop.refused
  match ← takeAll .none [] forms with
  | (a, []) => pure a
  | (_, left) => .error (.refused (.unrecognized left))

end ApiTypings.CommandLine
