/-!
The options of declarations.
-/

namespace ApiTypings

/-- What the declarations contain: event types and narrowed subscriptions, and `extends` clauses.
`rootName` is the name of the global scope in the description, and `baseEventType` the type of
events without a payload. -/
structure Options where
  generateEventTypes : Bool
  writeInheritance : Bool
  rootName : String
  baseEventType : String
  deriving DecidableEq, Repr, Inhabited

namespace Options

def defaultRootName : String := "Global"

def defaultBaseEventType : String := "Ti.Event"

/-- Event types are declared and `extends` clauses are left out. -/
def standard : Options := ⟨true, false, defaultRootName, defaultBaseEventType⟩

end Options

end ApiTypings
