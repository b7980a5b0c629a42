import ApiTypings.Number.Binary64

/-!
The values an API description is made of.

An object is the list of its fields in the order in which they were first written, since that order
decides the order of members, children and platform versions in everything generated from it.
Integers are exact and distinct from floating-point numbers: `1` and `1.0` are different values
which happen to be equal as names, and `NameKey` is the form in which names are compared.
-/

namespace ApiTypings

/-- A JSON value. Field lists of values that were read from text have no repeated key. -/
inductive Json where
  | null
  | bool (b : Bool)
  | int (n : Int)
  | float (x : Binary64)
  | str (s : String)
  | arr (items : List Json)
  | obj (fields : List (String × Json))
  deriving Repr, Inhabited

/-- The fields of an object, in order. -/
abbrev Fields := List (String × Json)

namespace Fields

/-- The value stored under a key. -/
def get? : Fields → String → Option Json
  | [], _ => none
  | (k, v) :: rest, key => if k = key then some v else get? rest key

/-- Whether an object has a field of this name. -/
def has (fields : Fields) (key : String) : Bool := (fields.get? key).isSome

/-- The value stored under a key, an absent field reading as `null`. -/
def get (fields : Fields) (key : String) : Json := (fields.get? key).getD .null

/-- Stores a value: a key that is present keeps its place, a new one comes last. -/
def set : Fields → String → Json → Fields
  | [], key, value => [(key, value)]
  | (k, v) :: rest, key, value =>
    if k = key then (k, value) :: rest else (k, v) :: set rest key value

def keys (fields : Fields) : List String := fields.map Prod.fst

def values (fields : Fields) : List Json := fields.map Prod.snd

/-- The object made by storing fields one after another: a repeated key keeps its first place and
takes its last value. -/
def ofList (entries : List (String × Json)) : Fields :=
  entries.foldl (fun fields e => fields.set e.1 e.2) []

@[simp] theorem get?_nil (key : String) : Fields.get? [] key = none := rfl

@[simp] theorem get?_cons (key k : String) (v : Json) (rest : Fields) :
    Fields.get? ((k, v) :: rest) key = if k = key then some v else Fields.get? rest key := rfl

theorem get?_set (fields : Fields) (key k : String) (v : Json) :
    (fields.set k v).get? key = if k = key then some v else fields.get? key := by
  induction fields with
  | nil => simp [set]
  | cons f rest ih =>
      obtain ⟨f, w⟩ := f
      by_cases h : f = k
      · by_cases hk : k = key <;> simp [set, h, hk]
      · by_cases hf : f = key
        · have hk : k ≠ key := fun e => h (hf.trans e.symm)
          simp [set, hf, hk, Ne.symm hk]
        · simp [set, h, hf, ih]

/-- Storing under a present key changes no key; storing under a new one appends it. -/
theorem keys_set (fields : Fields) (k : String) (v : Json) :
    (fields.set k v).keys = if k ∈ fields.keys then fields.keys else fields.keys ++ [k] := by
  induction fields with
  | nil => simp [set, keys]
  | cons f rest ih =>
      obtain ⟨f, w⟩ := f
      by_cases h : f = k
      · simp [set, keys, h]
      · have ih' : List.map Prod.fst (set rest k v) =
            if k ∈ List.map Prod.fst rest then List.map Prod.fst rest
            else List.map Prod.fst rest ++ [k] := ih
        by_cases hk : k ∈ List.map Prod.fst rest
        · simp [set, keys, h, ih', hk]
        · simp [set, keys, h, ih', hk, Ne.symm h]

end Fields

namespace Json

/-- Whether a value counts as present: `null`, `false`, a zero, an empty text, list or object
do not. -/
def truthy : Json → Bool
  | .null => false
  | .bool b => b
  | .int n => n ≠ 0
  | .float x => !x.isZero
  | .str s => s ≠ ""
  | .arr items => !items.isEmpty
  | .obj fields => !fields.isEmpty

/-- The word by which a message names the kind of a value. -/
def kindName : Json → String
  | .null => "NoneType"
  | .bool _ => "bool"
  | .int _ => "int"
  | .float _ => "float"
  | .str _ => "str"
  | .arr _ => "list"
  | .obj _ => "dict"

/-- The fields of an object. -/
def fields? : Json → Option Fields
  | .obj fields => some fields
  | _ => none

/-- The characters of a text. -/
def text? : Json → Option String
  | .str s => some s
  | _ => none

/-- The entries of a member collection, which may be a list or an object whose keys are only
positions; any other value holds none. -/
def entries : Json → List Json
  | .arr items => items
  | .obj fields => Fields.values fields
  | _ => []

end Json

/-- What two names are compared by. A truth value is the integer it stands for, and a whole
floating-point number is the integer it equals. -/
inductive NameKey where
  | null
  | text (s : String)
  | whole (n : Int)
  | real (x : Binary64)
  deriving DecidableEq, Repr

/-- The key of a value used as a name. Lists and objects cannot be names. -/
def Json.nameKey? : Json → Option NameKey
  | .null => some .null
  | .bool b => some (.whole (if b then 1 else 0))
  | .int n => some (.whole n)
  | .float x => some (match x.toInt? with | some n => .whole n | none => .real x)
  | .str s => some (.text s)
  | .arr _ => none
  | .obj _ => none

end ApiTypings
