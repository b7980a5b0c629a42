import Mathlib.Data.List.Basic

/-!
Computations that succeed.

A computation in several steps has succeeded if each of its steps has, and a computation on every
element of a list if it has on each.
-/

namespace ApiTypings.Success

variable {ε α β : Type}

theorem bind_eq_ok {x : Except ε α} {f : α → Except ε β} {b : β} :
    (x >>= f) = .ok b ↔ ∃ a, x = .ok a ∧ f a = .ok b := by
  cases x <;> simp [bind, Except.bind]

theorem map_eq_ok {x : Except ε α} {f : α → β} {b : β} :
    x.map f = .ok b ↔ ∃ a, x = .ok a ∧ f a = b := by
  cases x <;> simp [Except.map]

/-- What has been made of each element is among the results. -/
theorem exists_of_mem_mapM {f : α → Except ε β} {a : α} {as : List α} {bs : List β}
    (h : as.mapM f = .ok bs) (ha : a ∈ as) : ∃ b ∈ bs, f a = .ok b := by
  induction as generalizing bs with
  | nil => exact absurd ha List.not_mem_nil
  | cons first rest ih =>
    rw [List.mapM_cons] at h
    obtain ⟨b, hb, h⟩ := bind_eq_ok.1 h
    obtain ⟨others, hothers, h⟩ := bind_eq_ok.1 h
    obtain rfl := Except.ok.inj h
    rcases List.mem_cons.1 ha with rfl | ha
    · exact ⟨b, List.mem_cons_self, hb⟩
    · obtain ⟨other, hmem, hother⟩ := ih hothers ha
      exact ⟨other, List.mem_cons_of_mem b hmem, hother⟩

/-- What holds of whatever is made of an element, holds of the results. -/
theorem forall_mem_of_mapM {f : α → Except ε β} {as : List α} {bs : List β}
    {R : β → Prop} (hbs : as.mapM f = .ok bs) (h : ∀ a ∈ as, ∀ b, f a = .ok b → R b) :
    ∀ b ∈ bs, R b := by
  induction as generalizing bs with
  | nil =>
      obtain rfl := Except.ok.inj hbs
      simp
  | cons a rest ih =>
      rw [List.mapM_cons] at hbs
      obtain ⟨b, hb, hbs⟩ := bind_eq_ok.1 hbs
      obtain ⟨others, hothers, hbs⟩ := bind_eq_ok.1 hbs
      obtain rfl := Except.ok.inj hbs
      exact List.forall_mem_cons.2 ⟨h a List.mem_cons_self b hb,
        ih hothers fun a' ha' => h a' (List.mem_cons_of_mem a ha')⟩

/-! ### What success depends on -/

/-- That a computation succeeds, with whatever result. -/
def Succeeds (x : Except ε α) : Prop := ∃ a, x = .ok a

theorem succeeds_ok (a : α) : Succeeds (.ok a : Except ε α) := ⟨a, rfl⟩

theorem not_succeeds_error (e : ε) : ¬Succeeds (.error e : Except ε α) := by
  rintro ⟨a, ha⟩
  cases ha

theorem succeeds_map {x : Except ε α} {f : α → β} : Succeeds (x.map f) ↔ Succeeds x := by
  cases x <;> simp [Succeeds, Except.map]

/-- Two steps succeed if both do, where the second one succeeds independently of what the first one
gives it. -/
theorem succeeds_bind {x : Except ε α} {f : α → Except ε β} {P : Prop}
    (h : ∀ a, Succeeds (f a) ↔ P) : Succeeds (x >>= f) ↔ Succeeds x ∧ P := by
  cases x with
  | error e => simp [Succeeds, bind, Except.bind]
  | ok a => exact (h a).trans (and_iff_right (succeeds_ok a)).symm

theorem succeeds_mapM {f : α → Except ε β} {as : List α} :
    Succeeds (as.mapM f) ↔ ∀ a ∈ as, Succeeds (f a) := by
  induction as with
  | nil => exact iff_of_true (succeeds_ok []) (by simp)
  | cons a rest ih =>
      have hrest (b : β) : Succeeds (rest.mapM f >>= fun bs => pure (b :: bs)) ↔
          ∀ a ∈ rest, Succeeds (f a) :=
        (succeeds_bind fun bs => iff_true_intro (succeeds_ok (b :: bs))).trans
          ((and_iff_left trivial).trans ih)
      rw [List.mapM_cons, succeeds_bind hrest, List.forall_mem_cons]

/-! ### Computations that end alike -/

/-- Two computations that both fail, or both succeed with results that are related. -/
inductive Matches (R : α → β → Prop) : Except ε α → Except ε β → Prop
  | ok {a : α} {b : β} (h : R a b) : Matches R (.ok a) (.ok b)
  | error (e f : ε) : Matches R (.error e) (.error f)

section Matches

variable {γ δ : Type} {R : α → β → Prop} {S : γ → δ → Prop} {x : Except ε α} {y : Except ε β}

theorem matches_iff :
    Matches R x y ↔ (Succeeds x ↔ Succeeds y) ∧ ∀ a b, x = .ok a → y = .ok b → R a b := by
  constructor
  · rintro (h | ⟨e, f⟩)
    · refine ⟨iff_of_true (succeeds_ok _) (succeeds_ok _), fun a b ha hb => ?_⟩
      rwa [← Except.ok.inj ha, ← Except.ok.inj hb]
    · exact ⟨iff_of_false (not_succeeds_error e) (not_succeeds_error f), fun a b ha => by cases ha⟩
  · rintro ⟨hiff, h⟩
    cases x with
    | error e =>
        cases y with
        | error f => exact .error e f
        | ok b => exact absurd (hiff.2 (succeeds_ok b)) (not_succeeds_error e)
    | ok a =>
        cases y with
        | error f => exact absurd (hiff.1 (succeeds_ok a)) (not_succeeds_error f)
        | ok b => exact .ok (h a b rfl rfl)

theorem matches_self {R : α → α → Prop} (hR : ∀ a, R a a) : ∀ x : Except ε α, Matches R x x
  | .ok a => .ok (hR a)
  | .error e => .error e e

theorem Matches.imp {R' : α → β → Prop} (h : Matches R x y) (hR : ∀ a b, R a b → R' a b) :
    Matches R' x y := by
  cases h with
  | ok h => exact .ok (hR _ _ h)
  | error e f => exact .error e f

theorem Matches.bind {f : α → Except ε γ} {g : β → Except ε δ} (h : Matches R x y)
    (hfg : ∀ a b, R a b → Matches S (f a) (g b)) : Matches S (x >>= f) (y >>= g) := by
  cases h with
  | ok h => exact hfg _ _ h
  | error e e' => exact .error e e'

theorem Matches.map {f : α → γ} {g : β → δ} (h : Matches R x y)
    (hfg : ∀ a b, R a b → S (f a) (g b)) : Matches S (x.map f) (y.map g) := by
  cases h with
  | ok h => exact .ok (hfg _ _ h)
  | error e e' => exact .error e e'

end Matches

end ApiTypings.Success
