import Mathlib.Data.List.Infix

/-!
Properties of an element and what follows it.

That an element of a list has a property together with all that follows it is true of the first
element or somewhere further on.
-/

namespace ApiTypings.Suffix

variable {α : Type} {P : α → List α → Prop} {a : α} {rest : List α}

theorem not_exists_nil : ¬∃ b later, b :: later <:+ [] ∧ P b later := by
  rintro ⟨b, later, hsuffix, -⟩
  exact List.cons_ne_nil b later (List.suffix_nil.1 hsuffix)

theorem exists_cons :
    (∃ b later, b :: later <:+ a :: rest ∧ P b later) ↔
      P a rest ∨ ∃ b later, b :: later <:+ rest ∧ P b later := by
  constructor
  · rintro ⟨b, later, hsuffix, h⟩
    rcases List.suffix_cons_iff.1 hsuffix with heq | hsuffix
    · obtain ⟨rfl, rfl⟩ := List.cons.inj heq
      exact .inl h
    · exact .inr ⟨b, later, hsuffix, h⟩
  · rintro (h | ⟨b, later, hsuffix, h⟩)
    · exact ⟨a, rest, List.suffix_rfl, h⟩
    · exact ⟨b, later, hsuffix.trans (List.suffix_cons a rest), h⟩

end ApiTypings.Suffix
