import ApiTypings.Fault
import ApiTypings.Json.Basic

/-!
Comparing names of members.

The name of a member can be a value of any kind. Names are compared by their keys, and comparing a
list or an object with other names is a fault, whatever the other names are.
-/

namespace ApiTypings

/-- What a name is compared by; a list or an object cannot be compared. -/
def Json.comparable (name : Json) : Except Fault NameKey :=
  match name.nameKey? with
  | some key => .ok key
  | none => .error .notAName

/-- What the names of several members are compared by. -/
def Json.comparableAll : List Json → Except Fault (List NameKey)
  | [] => .ok []
  | name :: rest => do
    let key ← name.comparable
    let keys ← comparableAll rest
    pure (key :: keys)

/-- Whether a name is among others. -/
def Json.isAmong (name : Json) (names : List NameKey) : Except Fault Bool :=
  name.comparable.map names.contains

@[simp] theorem Json.comparable_str (s : String) : (Json.str s).comparable = .ok (.text s) := rfl

@[simp] theorem Json.isAmong_str (s : String) (names : List NameKey) :
    (Json.str s).isAmong names = .ok (names.contains (.text s)) := rfl

end ApiTypings
