import ApiTypings.Text.Split
import ApiTypings.Unicode.CharClass

/-!
Paths of dotted names.

Types are placed in a tree of namespaces by the segments of their dotted names. The global scope is
the root of the tree; its name may stand in front of any other name without changing what is meant.
-/

namespace ApiTypings

/-- The segments that lead from the root to a node. -/
abbrev Path := List String

namespace Path

/-- The path that a dotted name leads to. The root's name is dropped in front of other segments,
but not if it stands alone. -/
def ofName (rootName name : String) : Path :=
  match Text.pieces '.' name with
  | first :: second :: rest =>
    if first = rootName then second :: rest else first :: second :: rest
  | segments => segments

/-- The dotted name of a path; the root's path, or one that spells nothing, has the root's name. -/
def fullName (rootName : String) (p : Path) : String :=
  let name := Text.join "." p
  if name = "" then rootName else name

/-- The last segment of a path, and the root's name for the root. -/
def baseName (rootName : String) (p : Path) : String := p.getLast?.getD rootName

/-- The depth at which a node is declared: the children of the root are not indented. -/
def depth (p : Path) : Nat := p.length - 1

/-- Whether a node is a child of the root. -/
def inGlobal (p : Path) : Bool := p.length == 1

/-- Whether one path leads to a child of another. -/
def isChildOf (parent p : Path) : Bool := !p.isEmpty && p.dropLast == parent

theorem length_of_isChildOf {parent p : Path} (h : isChildOf parent p = true) :
    p.length = parent.length + 1 := by
  simp only [isChildOf, Bool.and_eq_true, Bool.not_eq_true', List.isEmpty_eq_false_iff,
    beq_iff_eq] at h
  obtain ⟨hne, rfl⟩ := h
  have := List.length_pos_iff.2 hne
  simp only [List.length_dropLast]
  omega

/-- A path leads through the node of which it is a child. -/
theorem isPrefix_of_isChildOf {parent p : Path} (h : isChildOf parent p = true) : parent <+: p := by
  simp only [isChildOf, Bool.and_eq_true, beq_iff_eq] at h
  exact h.2 ▸ List.dropLast_prefix p

end Path

/-- The name of the generic wrapper, which is declared in the header and cannot be declared again. -/
def reservedWrapper : String := "Dictionary"

/-- Whether a segment can be declared: it is not empty, does not start with a digit, and is not the
reserved wrapper. -/
def isDeclarable (segment : String) : Bool :=
  match segment.toList with
  | [] => false
  | c :: _ => !Unicode.isDigit c && segment != reservedWrapper

/-- Whether the first segment of a dotted name is the root's name. -/
def isGlobalName (name rootName : String) : Bool :=
  name.toList.takeWhile (· != '.') == rootName.toList

end ApiTypings
