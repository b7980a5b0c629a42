import ApiTypings.Proofs.Namespace.Mention
import ApiTypings.Text.Sorted

/-!
Sets of names in order.

Sorting different names leaves each of them before all that come later in the order of code points,
so what comes out depends on which names there are and not on the order in which they are given.
-/

namespace ApiTypings.Text

variable {names other : List String}

theorem notAfter_iff {a b : String} : notAfter a b = true ↔ a ≤ b := by
  rw [notAfter, Bool.not_eq_true', decide_eq_false_iff_not, String.not_lt]

theorem nodup_sortDistinct (names : List String) : (sortDistinct names).Nodup :=
  (List.mergeSort_perm _ _).nodup_iff.2 (nodup_eraseDups names)

/-- The names come in increasing order. -/
theorem pairwise_sortDistinct (names : List String) : (sortDistinct names).Pairwise (· < ·) := by
  have hsorted : (sortDistinct names).Pairwise fun a b => notAfter a b = true := by
    refine List.pairwise_mergeSort (fun a b c hab hbc => ?_) (fun a b => ?_) _
    · exact notAfter_iff.2 (String.le_trans (notAfter_iff.1 hab) (notAfter_iff.1 hbc))
    · rw [Bool.or_eq_true, notAfter_iff, notAfter_iff]
      exact String.le_total a b
  refine (hsorted.and (nodup_sortDistinct names)).imp fun ⟨hab, hne⟩ => ?_
  exact Std.lt_of_le_of_ne (notAfter_iff.1 hab) hne

/-- Lists of the same names are sorted alike. -/
theorem sortDistinct_congr (h : ∀ name, name ∈ names ↔ name ∈ other) :
    sortDistinct names = sortDistinct other := by
  have hperm : (sortDistinct names).Perm (sortDistinct other) := by
    refine (List.perm_ext_iff_of_nodup (nodup_sortDistinct _) (nodup_sortDistinct _)).2 ?_
    intro name
    rw [mem_sortDistinct, mem_sortDistinct, h]
  refine hperm.eq_of_pairwise (fun a b _ _ hab hba => ?_) (pairwise_sortDistinct names)
    (pairwise_sortDistinct other)
  exact absurd (String.lt_trans hab hba) (String.lt_irrefl a)

/-- Different names are only brought into another order. -/
theorem sortDistinct_perm (h : names.Nodup) : (sortDistinct names).Perm names := by
  rw [sortDistinct, eraseDups_of_nodup h]
  exact List.mergeSort_perm names _

end ApiTypings.Text
