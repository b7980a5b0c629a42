import ApiTypings.Declaration.Comment
import ApiTypings.Declaration.Parameter

/-!
The lines of members.

A property or a method is declared on one line, a removed one by its tombstone. The methods that
subscribe to events are narrowed against the event map of their type: one overload for the known
events and one for any other name.
-/

namespace ApiTypings.Declaration

/-- The event map that subscriptions are narrowed against, and the type that listeners are bound
to, if any. -/
structure EventBinding where
  mapName : String
  thisType : Option String
  deriving DecidableEq, Repr

/-! ### Subscriptions -/

/-- The methods that subscribe to events or fire them. -/
def eventMethods : List String := ["addEventListener", "removeEventListener", "fireEvent"]

/-- The binding of a listener, as its first parameter. -/
def thisParameter (events : EventBinding) : String :=
  match events.thisType with
  | some type => if type = "" then "" else "this: " ++ type ++ ", "
  | none => ""

/-- The overloads of a method by its name; only the event methods have any. -/
def eventOverloads (name : Json) (events : EventBinding) : List String :=
  let generic := "<K extends keyof " ++ events.mapName ++ ">"
  let eventType := events.mapName ++ "[K]"
  match name with
  | .str s =>
    if s = "addEventListener" ∨ s = "removeEventListener" then
      [s ++ generic ++ "(name: K, callback: (" ++ thisParameter events ++ "event: " ++ eventType ++
          ") => void): void;",
        s ++ "(name: string, callback: (...args: any[]) => void): void;"]
    else if s = "fireEvent" then
      [s ++ generic ++ "(name: K, event?: " ++ eventType ++ "): void;",
        s ++ "(name: string, event?: any): void;"]
    else []
  | _ => []

/-- The overloads that replace a method, if it is narrowed. -/
def narrowedOverloads (name : Json) : Option EventBinding → Except Fault (List String)
  | none => .ok []
  | some events =>
    (name.isAmong (eventMethods.map .text)).map fun isEventMethod =>
      if isEventMethod then eventOverloads name events else []

/-! ### Properties -/

/-- The line of a property; `methods` are the names of the methods beside it. -/
def propertyLine (pad : String) (p : Property) (methods : List NameKey) (optional : Bool) :
    Report String :=
  match removal? p.deprecation with
  | some d => do
    let commented ← Report.ofExcept (p.name.isAmong methods)
    pure (tombstone pad p.name.display d commented "")
  | none => do
    let key ← Report.ofExcept (memberKey p.name)
    let type ← Report.ofLogged (TypeText.declared p.type)
    pure (pad ++ deprecatedMark p.deprecation ++ (if p.readOnly then "readonly " else "") ++ key ++
      (if optional then "?" else "") ++ ": " ++ type ++ ";")

/-! ### Methods -/

/-- The type that a method returns. -/
def returnType (m : Method) : Logged String :=
  match m.returns with
  | .null => pure "void"
  | type => TypeText.declared type

/-- Names as they are listed in a message; each has to be text. -/
def listedNames (names : List Json) : Except Fault String :=
  (names.mapM matchable).map (Text.join ", ")

/-- The report on the names whose optional mark was cleared, and the comment that repeats it. -/
def reportCleared (m : Method) (cleared : List Json) : Report String :=
  if cleared.isEmpty then pure ""
  else do
    let names ← Report.ofExcept (listedNames cleared)
    Report.tell .warning .members
      (m.name.display ++ ": optional parameters " ++ names ++ " precede a required one.")
    pure (" // WARNING: optional flag cleared for " ++ names)

/-- The line of a method that is neither removed nor narrowed. -/
def plainMethodLine (pad : String) (m : Method) (keyword : String) : Report String := do
  let parameters ← declareParameters m.parameters
  let returns ← Report.ofLogged (returnType m)
  let note ← reportCleared m (clearedNames parameters)
  pure (pad ++ deprecatedMark m.deprecation ++ keyword ++ m.name.display ++ "(" ++
    parameterText parameters ++ "): " ++ returns ++ ";" ++ note)

/-- The line of a method; `properties` are the names of the properties beside it, and `keyword` is
what introduces a function outside a class. -/
def methodLine (pad : String) (m : Method) (properties : List NameKey)
    (events : Option EventBinding) (keyword : String) : Report String :=
  match removal? m.deprecation with
  | some d => do
    let commented ← Report.ofExcept (m.name.isAmong properties)
    pure (tombstone pad m.name.display d commented (if keyword = "" then "" else "const "))
  | none => do
    let overloads ← Report.ofExcept (narrowedOverloads m.name events)
    if overloads.isEmpty then plainMethodLine pad m keyword
    else pure (Text.join "\n" (overloads.map fun o => pad ++ keyword ++ o))

end ApiTypings.Declaration
