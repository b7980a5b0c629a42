/-!
Sets of names in the order of their code points.
-/

namespace ApiTypings.Text

/-- Whether a text comes no later than another one in the order of code points. -/
def notAfter (a b : String) : Bool := !decide (b < a)

/-- The different names of a list, in order. -/
def sortDistinct (names : List String) : List String := names.eraseDups.mergeSort notAfter

/-- Sorting keeps exactly the names. -/
@[simp] theorem mem_sortDistinct {name : String} {names : List String} :
    name ∈ sortDistinct names ↔ name ∈ names := by
  simp [sortDistinct, List.mem_mergeSort]

end ApiTypings.Text
