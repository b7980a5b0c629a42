import ApiTypings.Api.Record
import ApiTypings.Declaration.Name
import ApiTypings.TypeText.Reading

/-!
Parameter lists.

A declaration may not have a required parameter after an optional one. An optional parameter in
front of a required one therefore loses its mark, and its name is reported. Only the last parameter
can stand for any number of arguments.
-/

namespace ApiTypings.Declaration

/-- How a parameter takes its argument. -/
inductive ParameterStyle where
  | required
  | optional
  | rest
  deriving DecidableEq, Repr

/-- A parameter as it is declared; `cleared` tells that it was optional and had to be required. -/
structure DeclaredParameter where
  name : Json
  type : String
  style : ParameterStyle
  cleared : Bool

namespace DeclaredParameter

def render (p : DeclaredParameter) : String :=
  match p.style with
  | .rest => "..." ++ p.name.display ++ ": Array<" ++ p.type ++ ">"
  | .optional => p.name.display ++ "?: " ++ p.type
  | .required => p.name.display ++ ": " ++ p.type

end DeclaredParameter

/-- Whether an argument has to be given: neither left out nor repeated. -/
def isRequired (p : Parameter) : Bool := !p.optional && !p.repeatable

/-- Whether a type text is that of a dictionary, which a method that takes nothing else does not
insist on. -/
def isDictionaryType (type : String) : Bool := "Dictionary".toList.isPrefixOf type.toList

/-- The style of a parameter and whether its mark was cleared, by its type and the parameters that
follow it. -/
def parameterStyle (alone : Bool) (p : Parameter) (type : String) (later : List Parameter) :
    ParameterStyle × Bool :=
  if p.repeatable && later.isEmpty then (.rest, false)
  else
    let cleared := p.optional && later.any isRequired
    let optional := (p.optional && !cleared) || (alone && isDictionaryType type)
    (if optional then .optional else .required, cleared)

/-- One parameter, by those that follow it. -/
def declareParameter (alone : Bool) (p : Parameter) (later : List Parameter) :
    Report DeclaredParameter := do
  let name ← Report.ofExcept (parameterName p.name)
  let type ← Report.ofLogged (TypeText.declared p.type)
  let (style, cleared) := parameterStyle alone p type later
  pure ⟨name, type, style, cleared⟩

def declareFrom (alone : Bool) : List Parameter → Report (List DeclaredParameter)
  | [] => pure []
  | p :: later => do
    let declared ← declareParameter alone p later
    let others ← declareFrom alone later
    pure (declared :: others)

/-- The parameters of a method as they are declared. -/
def declareParameters (parameters : List Parameter) : Report (List DeclaredParameter) :=
  declareFrom (parameters.length == 1) parameters

/-- The text of a parameter list, without its brackets. -/
def parameterText (parameters : List DeclaredParameter) : String :=
  Text.join ", " (parameters.map DeclaredParameter.render)

/-- The names whose mark was cleared. -/
def clearedNames (parameters : List DeclaredParameter) : List Json :=
  (parameters.filter (·.cleared)).map (·.name)

end ApiTypings.Declaration
