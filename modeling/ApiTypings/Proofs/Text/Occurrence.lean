import ApiTypings.Proofs.Text.Pieces
import ApiTypings.Proofs.Text.Replacement
import ApiTypings.Text.Blank
import Mathlib.Algebra.GroupWithZero.Nat

/-!
How often a part occurs in a text.

A part that lacks a character cannot reach over it, so that what stands before and behind the
character is looked at on its own. A text between two such characters therefore keeps the parts of a
whole apart, and occurrences are counted one by one when texts are joined with it. A part without a
blank is found as often when the blanks at the end are trimmed.
-/

namespace ApiTypings.Text

/-- How often a part occurs: the number of positions at which it stands. -/
def occurrences (part cs : List Char) : Nat := cs.tails.countP part.isPrefixOf

variable {part : List Char} {c : Char}

theorem occurrences_nil (hpart : part ≠ []) : occurrences part [] = 0 := by
  cases part with
  | nil => exact absurd rfl hpart
  | cons c rest => rfl

theorem occurrences_cons (part : List Char) (c : Char) (rest : List Char) :
    occurrences part (c :: rest) =
      (if part.isPrefixOf (c :: rest) then 1 else 0) + occurrences part rest := by
  rw [occurrences, List.tails_cons, List.countP_cons, Nat.add_comm]
  rfl

theorem occurrences_eq_zero_iff {cs : List Char} : occurrences part cs = 0 ↔ ¬part <:+: cs := by
  rw [occurrences, List.countP_eq_zero, List.infix_iff_prefix_suffix]
  constructor
  · rintro h ⟨t, hprefix, hsuffix⟩
    exact h t ((List.mem_tails t cs).2 hsuffix) (List.isPrefixOf_iff_prefix.2 hprefix)
  · intro h t ht hprefix
    exact h ⟨t, List.isPrefixOf_iff_prefix.1 hprefix, (List.mem_tails t cs).1 ht⟩

theorem occurrences_le_of_isSuffix {a b : List Char} (h : a <:+ b) :
    occurrences part a ≤ occurrences part b := by
  obtain ⟨front, rfl⟩ := h
  induction front with
  | nil => exact Nat.le_refl _
  | cons c rest ih =>
      rw [List.cons_append, occurrences_cons]
      exact Nat.le_trans ih (Nat.le_add_left _ _)

/-- A part is not found where its first character is missing. -/
theorem occurrences_skip (hpart : part ≠ []) {front : List Char}
    (hhead : ∀ c ∈ part.head?, c ∉ front) (back : List Char) :
    occurrences part (front ++ back) = occurrences part back := by
  induction front with
  | nil => rfl
  | cons d rest ih =>
      obtain ⟨c, more, rfl⟩ := List.exists_cons_of_ne_nil hpart
      have hnot : (c :: more).isPrefixOf (d :: (rest ++ back)) = false := by
        refine isPrefixOf_eq_false.2 fun h => ?_
        obtain ⟨rfl, -⟩ := List.cons_prefix_cons.1 h
        exact hhead c rfl List.mem_cons_self
      rw [List.cons_append, occurrences_cons, hnot, if_neg Bool.false_ne_true, Nat.zero_add]
      exact ih fun e he hmem => hhead e he (List.mem_cons_of_mem d hmem)

/-- A part is not found at the end of a text that ends in another character. -/
theorem occurrences_concat (hpart : part ≠ []) (hlast : part.getLast? ≠ some c)
    (cs : List Char) : occurrences part (cs ++ [c]) = occurrences part cs := by
  have hiff (text : List Char) : part <+: text ++ [c] ↔ part <+: text := by
    rw [List.prefix_concat_iff]
    refine or_iff_right ?_
    rintro rfl
    exact hlast List.getLast?_concat
  induction cs with
  | nil =>
      have hnot : part.isPrefixOf [c] = false :=
        isPrefixOf_eq_false.2 fun h => hpart (List.prefix_nil.1 ((hiff []).1 h))
      rw [List.nil_append, occurrences_cons, hnot, if_neg Bool.false_ne_true, Nat.zero_add]
  | cons d rest ih =>
      have hsame : part.isPrefixOf (d :: rest ++ [c]) = part.isPrefixOf (d :: rest) :=
        isPrefixOf_congr (hiff (d :: rest))
      rw [List.cons_append, occurrences_cons, occurrences_cons, ih, ← List.cons_append, hsame]

/-- A part without a character is found on one side of it or on the other. -/
theorem occurrences_append_cons (hpart : part ≠ []) (hc : c ∉ part) (front back : List Char) :
    occurrences part (front ++ c :: back) = occurrences part front + occurrences part back := by
  induction front with
  | nil =>
      rw [List.nil_append, occurrences_cons, isPrefixOf_cons_of_not_mem hpart hc,
        occurrences_nil hpart]
      rfl
  | cons d rest ih =>
      have hsame := isPrefixOf_append_cons hc (d :: rest) back
      rw [List.cons_append, occurrences_cons, occurrences_cons, ih, ← List.cons_append, hsame,
        Nat.add_assoc]

/-- A text that begins and ends with characters that a part lacks. -/
structure Separates (part joint : List Char) : Prop where
  ne_nil : joint ≠ []
  head : ∀ c ∈ joint.head?, c ∉ part
  last : ∀ c ∈ joint.getLast?, c ∉ part

instance (part joint : List Char) : Decidable (Separates part joint) :=
  decidable_of_iff (joint ≠ [] ∧ joint.head?.all (· ∉ part) ∧ joint.getLast?.all (· ∉ part)) <| by
    simp only [Option.all_eq_true, decide_eq_true_eq]
    exact ⟨fun ⟨hne, hhead, hlast⟩ => ⟨hne, hhead, hlast⟩, fun h => ⟨h.ne_nil, h.head, h.last⟩⟩

theorem separates_of_ends {first last : Char} (hfirst : first ∉ part) (hlast : last ∉ part)
    (mid : List Char) : Separates part (first :: mid ++ [last]) := by
  refine ⟨List.cons_ne_nil _ _, fun c hc => ?_, fun c hc => ?_⟩
  · exact Option.mem_some_iff.1 hc ▸ hfirst
  · rw [List.getLast?_concat, Option.mem_some_iff] at hc
    exact hc ▸ hlast

/-- A part is found before, in or behind a text that separates it. -/
theorem Separates.occurrences_append {joint : List Char} (hpart : part ≠ [])
    (h : Separates part joint) (front back : List Char) :
    occurrences part (front ++ joint ++ back) =
      occurrences part front + occurrences part joint + occurrences part back := by
  obtain ⟨first, rest, rfl⟩ := List.exists_cons_of_ne_nil h.ne_nil
  have hfirst : first ∉ part := h.head first rfl
  have hhead := occurrences_append_cons hpart hfirst [] rest
  rw [List.nil_append, occurrences_nil hpart, Nat.zero_add] at hhead
  rw [List.append_assoc, List.cons_append, occurrences_append_cons hpart hfirst, hhead]
  rcases List.eq_nil_or_concat rest with rfl | ⟨mid, last, rfl⟩
  · rw [occurrences_nil hpart, List.nil_append, Nat.add_zero]
  · have hlast : last ∉ part := h.last last (by simp [List.getLast?_cons])
    have hmid := occurrences_append_cons hpart hlast mid []
    rw [occurrences_nil hpart, Nat.add_zero] at hmid
    rw [List.concat_eq_append, List.append_assoc, List.singleton_append,
      occurrences_append_cons hpart hlast, hmid, Nat.add_assoc]

/-- That a part is found in front of a text or behind it, and nowhere in between. -/
def Divides (part joint : List Char) : Prop :=
  ∀ front back, occurrences part (front ++ joint ++ back) =
    occurrences part front + occurrences part back

theorem Separates.divides (hpart : part ≠ []) {joint : List Char} (h : Separates part joint)
    (hnone : occurrences part joint = 0) : Divides part joint := by
  intro front back
  rw [h.occurrences_append hpart, hnone, Nat.add_zero]

theorem divides_singleton (hpart : part ≠ []) (hc : c ∉ part) : Divides part [c] := by
  intro front back
  rw [List.append_assoc, List.singleton_append, occurrences_append_cons hpart hc]

theorem Divides.skip {joint gap : List Char} (h : Divides part joint) (hpart : part ≠ [])
    (hhead : ∀ c ∈ part.head?, c ∉ gap) : Divides part (joint ++ gap) := by
  intro front back
  rw [← List.append_assoc, List.append_assoc, h, occurrences_skip hpart hhead]

/-- A replacement brings in no part that it keeps apart from what it leaves. -/
theorem occurrences_replaceChars_le (hpart : part ≠ []) {new : List Char}
    (hnew : Separates part new) (hnone : occurrences part new = 0) (old cs : List Char) :
    occurrences part (replaceChars old new cs) ≤ occurrences part cs := by
  fun_induction replaceChars old new cs with
  | case1 => exact Nat.le_refl _
  | case2 c rest hprefix ih =>
      have hsplit := hnew.divides hpart hnone [] (replaceChars old new (rest.drop (old.length - 1)))
      rw [List.nil_append, occurrences_nil hpart, Nat.zero_add] at hsplit
      have hdropped : rest.drop (old.length - 1) <:+ c :: rest :=
        (List.drop_suffix _ _).trans (List.suffix_cons c rest)
      rw [hsplit]
      exact Nat.le_trans ih (occurrences_le_of_isSuffix hdropped)
  | case3 c rest hprefix ih =>
      have hkept : part.isPrefixOf (c :: replaceChars old new rest) = true →
          part.isPrefixOf (c :: rest) = true := by
        rw [List.isPrefixOf_iff_prefix, List.isPrefixOf_iff_prefix]
        intro h
        have hwhole : part <+: replaceChars old new (c :: rest) := by
          rwa [replaceChars, if_neg hprefix]
        exact isPrefix_of_isPrefix_replaceChars hnew.ne_nil hnew.head hwhole
      rw [occurrences_cons, occurrences_cons]
      refine Nat.add_le_add ?_ ih
      split
      next h => rw [if_pos (hkept h)]
      · exact Nat.zero_le _

theorem occurrences_trimEndChars (hpart : part ≠ []) (hblank : ∀ c ∈ part, isBlank c = false)
    (cs : List Char) : occurrences part (trimEndChars cs) = occurrences part cs := by
  induction cs using List.reverseRecOn with
  | nil => rfl
  | append_singleton cs c ih =>
      cases hc : isBlank c with
      | true =>
          have hout : c ∉ part := fun h => Bool.false_ne_true ((hblank c h).symm.trans hc)
          have htrim : trimEndChars (cs ++ [c]) = trimEndChars cs := by
            simp [trimEndChars, hc]
          rw [htrim, ih, occurrences_append_cons hpart hout, occurrences_nil hpart, Nat.add_zero]
      | false => rw [trimEndChars_concat hc]

/-! ### Joined texts -/

/-- A part occurs in texts that are joined by what divides them as often as in each of them. -/
theorem Divides.occurrences_join {joint : String} (h : Divides part joint.toList)
    (hpart : part ≠ []) (parts : List String) :
    occurrences part (join joint parts).toList =
      (parts.map fun s => occurrences part s.toList).sum := by
  induction parts with
  | nil => exact occurrences_nil hpart
  | cons s rest ih =>
      by_cases hrest : rest = []
      · subst hrest
        simp [join]
      · rw [join_cons hrest, String.toList_append, String.toList_append, h, ih, List.map_cons,
          List.sum_cons]

/-- A part occurs in joined texts as often as in the texts and in what stands between them. -/
theorem occurrences_join (hpart : part ≠ []) {joint : String} (h : Separates part joint.toList)
    (parts : List String) :
    occurrences part (join joint parts).toList =
      (parts.map fun s => occurrences part s.toList).sum +
        (parts.length - 1) * occurrences part joint.toList := by
  induction parts with
  | nil => simp [join, occurrences_nil hpart]
  | cons s rest ih =>
      by_cases hrest : rest = []
      · subst hrest
        simp [join]
      · obtain ⟨next, more, rfl⟩ := List.exists_cons_of_ne_nil hrest
        rw [join_cons hrest, String.toList_append, String.toList_append,
          h.occurrences_append hpart, ih]
        simp only [List.map_cons, List.sum_cons, List.length_cons, Nat.add_sub_cancel, Nat.add_mul,
          Nat.one_mul]
        omega

end ApiTypings.Text
