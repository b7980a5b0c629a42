import ApiTypings.Proofs.Document.Depth
import ApiTypings.Proofs.Json.Parts
import Mathlib.Data.List.Forall2
import Mathlib.Data.Option.Basic

/-!
Values that are equal up to order.

An object is what stands under its keys, so that the order of the keys is of no account when two
values are compared; the order of the items counts, unless a list is of a sort whose items may be
moved. What the numbers and texts in the two values have to have in common is left open: they may
have to be identical, or equal as names, where `1`, `1.0` and `true` are one.
-/

namespace ApiTypings

/-- A notion of equality for what can be a name: at least what is equal can be told apart by no
name. -/
structure Sameness where
  same : Json → Json → Prop
  refl : ∀ v, same v v
  symm : ∀ {v w}, same v w → same w v
  nameKey?_eq : ∀ {v w}, same v w → v.nameKey? = w.nameKey?

namespace Sameness

def identical : Sameness := ⟨Eq, fun _ => rfl, Eq.symm, congrArg Json.nameKey?⟩

def asNames : Sameness :=
  ⟨fun v w => v.nameKey? = w.nameKey?, fun _ => rfl, Eq.symm, id⟩

end Sameness

namespace Json

/-- Two values agree up to the order of keys, and of the items in lists of a certain sort. -/
inductive Agrees (eq : Sameness) (movable : List Json → Prop) : Json → Json → Prop
  | name {v w : Json} (hname : v.nameKey?.isSome) (h : eq.same v w) : Agrees eq movable v w
  | arr {a b c : List Json} (hlength : a.length = b.length)
      (h : ∀ i hi hi', Agrees eq movable (a.get ⟨i, hi⟩) (b.get ⟨i, hi'⟩))
      (hperm : b = c ∨ movable b ∧ b.Perm c) : Agrees eq movable (.arr a) (.arr c)
  | obj {a b : Fields} (hkeys : ∀ key, (a.get? key).isSome = (b.get? key).isSome)
      (h : ∀ key v w, a.get? key = some v → b.get? key = some w → Agrees eq movable v w) :
      Agrees eq movable (.obj a) (.obj b)

/-- Equality up to the order of keys. -/
def Equal (eq : Sameness) : Json → Json → Prop := Agrees eq fun _ => False

variable {eq : Sameness} {movable : List Json → Prop} {v w : Json}

theorem Agrees.refl (v : Json) : Agrees eq movable v v := by
  induction v using Json.ofParts with
  | obj fields ih =>
      refine .obj (fun _ => rfl) fun key x y hx hy => ?_
      obtain rfl := Option.some.inj (hx.symm.trans hy)
      exact ih _ (Fields.mem_of_get? hx)
  | arr items ih => exact .arr rfl (fun i hi _ => ih _ (List.get_mem items ⟨i, hi⟩)) (.inl rfl)
  | name v hname => exact .name hname (eq.refl v)

theorem Agrees.mono {free : List Json → Prop} (h : Agrees eq movable v w)
    (hfree : ∀ items, movable items → free items) : Agrees eq free v w := by
  induction h with
  | name hname h => exact .name hname h
  | arr hlength _ hperm ih => exact .arr hlength ih (hperm.imp_right (And.imp_left (hfree _)))
  | obj hkeys _ ih => exact .obj hkeys ih

theorem Agrees.arr_of_forall₂ {a b c : List Json} (h : List.Forall₂ (Agrees eq movable) a b)
    (hperm : b = c ∨ movable b ∧ b.Perm c) : Agrees eq movable (.arr a) (.arr c) := by
  obtain ⟨hlength, hitems⟩ := List.forall₂_iff_get.1 h
  exact .arr hlength hitems hperm

theorem Agrees.obj_of_rel {a b : Fields}
    (h : ∀ key, Option.Rel (Agrees eq movable) (a.get? key) (b.get? key)) :
    Agrees eq movable (.obj a) (.obj b) := by
  refine .obj (fun key => ?_) fun key v w hv hw => ?_
  · have hkey := h key
    generalize a.get? key = x, b.get? key = y at hkey ⊢
    cases hkey <;> rfl
  · have hkey := h key
    rw [hv, hw] at hkey
    cases hkey with
    | some h => exact h

namespace Equal

theorem symm (h : Equal eq v w) : Equal eq w v := by
  induction h with
  | name hname h => exact .name (eq.nameKey?_eq h ▸ hname) (eq.symm h)
  | arr hlength _ hperm ih =>
      obtain rfl := hperm.resolve_right And.left
      exact .arr hlength.symm (fun i hi hi' => ih i hi' hi) (.inl rfl)
  | obj hkeys _ ih =>
      exact .obj (fun key => (hkeys key).symm) fun key v w hv hw => ih key w v hw hv

theorem nameKey?_eq (h : Equal eq v w) : v.nameKey? = w.nameKey? := by
  cases h with
  | name _ h => exact eq.nameKey?_eq h
  | arr => rfl
  | obj => rfl

theorem arr_iff {a b : List Json} : Equal eq (.arr a) (.arr b) ↔ List.Forall₂ (Equal eq) a b := by
  constructor
  · intro h
    cases h with
    | name hname => cases hname
    | arr hlength h hperm =>
        obtain rfl := hperm.resolve_right And.left
        exact List.forall₂_iff_get.2 ⟨hlength, h⟩
  · exact fun h => .arr_of_forall₂ h (.inl rfl)

theorem obj_iff {a b : Fields} :
    Equal eq (.obj a) (.obj b) ↔ ∀ key, Option.Rel (Equal eq) (a.get? key) (b.get? key) := by
  constructor
  · intro h key
    cases h with
    | name hname => cases hname
    | obj hkeys h =>
        have hkey := hkeys key
        have hvalues := h key
        generalize a.get? key = x, b.get? key = y at hkey hvalues ⊢
        cases x with
        | none =>
            cases y with
            | none => exact .none
            | some w => cases hkey
        | some v =>
            cases y with
            | none => cases hkey
            | some w => exact .some (hvalues v w rfl rfl)
  · exact Agrees.obj_of_rel

/-- Equal values are of one form. -/
theorem forms (h : Equal eq v w) :
    (v.nameKey?.isSome ∧ w.nameKey?.isSome) ∨
      (∃ a b, v = .arr a ∧ w = .arr b ∧ List.Forall₂ (Equal eq) a b) ∨
      ∃ a b : Fields, v = .obj a ∧ w = .obj b ∧
        ∀ key, Option.Rel (Equal eq) (a.get? key) (b.get? key) := by
  cases v with
  | arr a =>
      cases w with
      | arr b => exact .inr (.inl ⟨a, b, rfl, rfl, arr_iff.1 h⟩)
      | _ => cases h with | name hname => cases hname
  | obj a =>
      cases w with
      | obj b => exact .inr (.inr ⟨a, b, rfl, rfl, obj_iff.1 h⟩)
      | _ => cases h with | name hname => cases hname
  | _ => exact .inl ⟨rfl, h.nameKey?_eq ▸ rfl⟩

end Equal

end Json

end ApiTypings
