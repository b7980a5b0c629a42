import ApiTypings.Json.Basic

/-!
The records of an API description.

A merged document is read into these records before anything is generated from it. A member's name
and the type expressions stay values of any kind: a description may hold numbers where names
belong, and what becomes of those depends on the place where they are used.
-/

namespace ApiTypings

/-- That a member or type should no longer be used, or no longer exists. -/
structure Deprecation where
  since : String
  removed : String
  notes : String
  deriving DecidableEq, Repr, Inhabited

/-- The versions in which something appeared, by platform, in order. -/
abbrev Since := List (String × String)

structure Property where
  name : Json
  type : Json
  summary : String
  since : Since
  permission : String
  deprecation : Option Deprecation
  deriving Inhabited

structure Parameter where
  name : Json
  type : Json
  optional : Bool
  repeatable : Bool
  summary : String
  deriving Inhabited

/-- A method; `returns` is `null` if nothing is returned. -/
structure Method where
  name : Json
  summary : String
  since : Since
  parameters : List Parameter
  returns : Json
  deprecation : Option Deprecation
  deriving Inhabited

structure Event where
  name : Json
  summary : String
  properties : List Property
  deriving Inhabited

/-- The names that a type suppresses, by kind of member. -/
structure OwnExclusions where
  methods : List String
  properties : List String
  events : List String
  deriving DecidableEq, Repr, Inhabited

/-- The flavours of types, which decide how a type is declared. -/
inductive TypeKind where
  | proxy
  | view
  | pseudo
  | scope
  deriving DecidableEq, Repr, Inhabited

/-- Everything known about one type or namespace. -/
structure TypeRecord where
  name : String
  summary : String
  description : String
  since : Since
  extends? : Option String
  kind : TypeKind
  creatable : Bool
  properties : List Property
  methods : List Method
  events : List Event
  excludes : OwnExclusions
  deprecation : Option Deprecation
  deriving Inhabited

/-- Whether something that carries a deprecation was removed altogether. -/
def Deprecation.isRemoval (d : Deprecation) : Bool := d.removed ≠ ""

/-- The removal of a member, if it was removed. -/
def removal? (deprecation : Option Deprecation) : Option Deprecation :=
  deprecation.filter (·.isRemoval)

def Property.readOnly (p : Property) : Bool := p.permission = "read-only"

/-- Whether instances of the type are objects of their own, so that it is declared as a class even
if it contains other types. -/
def TypeKind.instantiable : TypeKind → Bool
  | .proxy => true
  | .view => true
  | _ => false

end ApiTypings
