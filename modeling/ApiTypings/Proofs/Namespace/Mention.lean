import ApiTypings.Namespace.Path
import Mathlib.Data.List.Induction

/-!
First mentions.

A description creates a node when it first mentions the node's path, and a dotted name mentions
every path on the way to its own. The nodes of a tree are therefore the paths that were mentioned,
without repetition, each in the place of its first mention. This file has the laws of
`List.eraseDups` that the trees need, two laws of `List.eraseDupsBy` before them, and the paths that
one name mentions.
-/

namespace ApiTypings

/-! ### Lists without repetition -/

theorem eraseDupsBy_subset {α : Type} (r : α → α → Bool) (as : List α) : as.eraseDupsBy r ⊆ as := by
  match as with
  | [] => exact List.Subset.refl _
  | a :: rest =>
    rw [List.eraseDupsBy_cons]
    have hlater := eraseDupsBy_subset r (rest.filter fun b => decide (r b a = false))
    exact List.cons_subset_cons a (List.Subset.trans hlater List.filter_sublist.subset)
termination_by as.length
decreasing_by exact Nat.lt_succ_of_le (List.length_filter_le _ _)

/-- No element is kept that an earlier one stands for. -/
theorem pairwise_eraseDupsBy {α : Type} (r : α → α → Bool) (as : List α) :
    (as.eraseDupsBy r).Pairwise fun a b => r b a = false := by
  match as with
  | [] => exact .nil
  | a :: rest =>
    rw [List.eraseDupsBy_cons, List.pairwise_cons]
    refine ⟨fun b hb => ?_, pairwise_eraseDupsBy r _⟩
    have hkept := (List.mem_filter.1 (eraseDupsBy_subset r _ hb)).2
    exact of_decide_eq_true hkept
termination_by as.length
decreasing_by exact Nat.lt_succ_of_le (List.length_filter_le _ _)

section FirstMention

variable {α : Type} [BEq α] [LawfulBEq α]

/-- A mention at the end counts only if it is the first. -/
theorem eraseDups_concat (xs : List α) (x : α) :
    (xs ++ [x]).eraseDups = if x ∈ xs then xs.eraseDups else xs.eraseDups ++ [x] := by
  rw [List.eraseDups_append]
  by_cases h : x ∈ xs
  · simp [List.removeAll, h]
  · simp [List.removeAll, h, List.eraseDups_cons]

theorem nodup_eraseDups (xs : List α) : xs.eraseDups.Nodup :=
  (pairwise_eraseDupsBy _ xs).imp fun hne heq => by simp [heq] at hne

theorem eraseDups_of_nodup {xs : List α} (h : xs.Nodup) : xs.eraseDups = xs := by
  induction xs using List.reverseRecOn with
  | nil => rfl
  | append_singleton xs x ih =>
      obtain ⟨hxs, -, hdisj⟩ := List.nodup_append.1 h
      have hx : x ∉ xs := fun hmem => hdisj x hmem x (by simp) rfl
      rw [eraseDups_concat, if_neg hx, ih hxs]

/-- Keeping some elements and dropping repetitions can be done in either order. -/
theorem filter_eraseDups (p : α → Bool) (xs : List α) :
    xs.eraseDups.filter p = (xs.filter p).eraseDups := by
  induction xs using List.reverseRecOn with
  | nil => rfl
  | append_singleton xs x ih =>
      rw [eraseDups_concat, List.filter_append]
      by_cases hp : p x
      · have hmem : x ∈ xs.filter p ↔ x ∈ xs := by simp [hp]
        rw [List.filter_cons_of_pos hp, List.filter_nil, eraseDups_concat, if_congr hmem rfl rfl]
        split
        · exact ih
        · rw [List.filter_append, ih, List.filter_cons_of_pos hp, List.filter_nil]
      · rw [List.filter_cons_of_neg hp, List.filter_nil, List.append_nil]
        split
        · exact ih
        · rw [List.filter_append, ih, List.filter_cons_of_neg hp, List.filter_nil,
            List.append_nil]

end FirstMention

/-! ### The way to a path -/

namespace Path

/-- The paths on the way from a path along segments, the goal last. -/
def stepsFrom : Path → List String → List Path
  | _, [] => []
  | base, name :: rest => (base ++ [name]) :: stepsFrom (base ++ [name]) rest

/-- The paths on the way from the root to a path, the root left out. -/
def steps (p : Path) : List Path := stepsFrom [] p

theorem mem_stepsFrom {base q : Path} {names : List String} :
    q ∈ stepsFrom base names ↔ ∃ front, front ≠ [] ∧ front <+: names ∧ q = base ++ front := by
  induction names generalizing base with
  | nil =>
      simp only [stepsFrom, List.not_mem_nil, List.prefix_nil, false_iff, not_exists, not_and]
      intro front hne hnil
      exact absurd hnil hne
  | cons name rest ih =>
      rw [stepsFrom, List.mem_cons, ih]
      constructor
      · rintro (rfl | ⟨front, -, hfront, rfl⟩)
        · exact ⟨[name], by simp, ⟨rest, rfl⟩, rfl⟩
        · exact ⟨name :: front, by simp, List.cons_prefix_cons.2 ⟨rfl, hfront⟩, by simp⟩
      · rintro ⟨front, hne, hfront, rfl⟩
        obtain ⟨first, front, rfl⟩ := List.exists_cons_of_ne_nil hne
        obtain ⟨rfl, hrest⟩ := List.cons_prefix_cons.1 hfront
        by_cases hnil : front = []
        · exact .inl (by rw [hnil])
        · exact .inr ⟨front, hnil, hrest, by simp⟩

/-- The steps to a path are its prefixes but for the root. -/
theorem mem_steps {p q : Path} : q ∈ p.steps ↔ q ≠ [] ∧ q <+: p := by
  rw [steps, mem_stepsFrom]
  constructor
  · rintro ⟨front, hne, hfront, rfl⟩
    exact ⟨by simpa using hne, by simpa using hfront⟩
  · rintro ⟨hne, hq⟩
    exact ⟨q, hne, hq, rfl⟩

theorem mem_steps_self {p : Path} (h : p ≠ []) : p ∈ p.steps := mem_steps.2 ⟨h, List.prefix_rfl⟩

end Path

end ApiTypings
