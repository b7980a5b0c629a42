import ApiTypings.Text.Split
import Mathlib.Data.List.Infix

/-!
Replacing a part of a text.

A text in which the part does not occur stays as it is. A part of two different characters does not
overlap itself, so that up to its first occurrence the text stays as it is, and what follows it is
looked at on its own.
-/

namespace ApiTypings.Text

theorem isPrefixOf_eq_false {a b : List Char} : a.isPrefixOf b = false ↔ ¬a <+: b := by
  rw [← List.isPrefixOf_iff_prefix, Bool.not_eq_true]

theorem isPrefixOf_congr {a b a' b' : List Char} (h : a <+: b ↔ a' <+: b') :
    a.isPrefixOf b = a'.isPrefixOf b' := by
  rw [Bool.eq_iff_iff, List.isPrefixOf_iff_prefix, List.isPrefixOf_iff_prefix, h]

theorem replaceChars_of_not_infix {old cs : List Char} (new : List Char) (h : ¬old <:+: cs) :
    replaceChars old new cs = cs := by
  induction cs with
  | nil => rw [replaceChars]
  | cons c rest ih =>
    rw [List.infix_cons_iff, not_or] at h
    rw [replaceChars, if_neg (mt List.isPrefixOf_iff_prefix.1 h.1), ih h.2]

/-- A single character is replaced wherever it stands. -/
theorem replaceChars_singleton (a : Char) (new cs : List Char) :
    replaceChars [a] new cs = cs.flatMap fun c => if c = a then new else [c] := by
  induction cs with
  | nil => rw [replaceChars, List.flatMap_nil]
  | cons c rest ih =>
    rw [replaceChars, List.flatMap_cons]
    by_cases hc : c = a
    · subst hc
      rw [if_pos (by simp), if_pos rfl, List.length_singleton, Nat.sub_self, List.drop_zero, ih]
    · have hnot : ¬[a].isPrefixOf (c :: rest) = true := by simpa using Ne.symm hc
      rw [if_neg hnot, if_neg hc, ih, List.singleton_append]

theorem replaceChars_pair {a b : Char} (hab : a ≠ b) (new : List Char) {front : List Char}
    (h : ¬[a, b] <:+: front) (back : List Char) :
    replaceChars [a, b] new (front ++ a :: b :: back) =
      front ++ new ++ replaceChars [a, b] new back := by
  induction front with
  | nil => rw [List.nil_append, replaceChars, if_pos (by simp)]; simp
  | cons c rest ih =>
    rw [List.infix_cons_iff, not_or] at h
    have hnext : ¬[a, b] <+: c :: (rest ++ a :: b :: back) := by
      cases rest with
      | nil => simp [hab.symm]
      | cons d more => simpa using h.1
    rw [List.cons_append, replaceChars, if_neg (mt List.isPrefixOf_iff_prefix.1 hnext), ih h.2]
    simp

/-! ### Around a character that is not in the part -/

variable {old : List Char} {c : Char}

theorem isPrefix_append_cons_iff (hc : c ∉ old) {front back : List Char} :
    old <+: front ++ c :: back ↔ old <+: front := by
  refine ⟨fun h => ?_, fun h => h.trans (List.prefix_append front _)⟩
  rcases List.prefix_or_prefix_of_prefix h (List.prefix_append front (c :: back)) with
    hold | ⟨more, rfl⟩
  · exact hold
  · cases more with
    | nil => rw [List.append_nil]
    | cons d rest =>
      obtain ⟨rfl, -⟩ := List.cons_prefix_cons.1 ((List.prefix_append_right_inj front).1 h)
      exact absurd (List.mem_append_right front List.mem_cons_self) hc

theorem isPrefixOf_append_cons (hc : c ∉ old) (front back : List Char) :
    old.isPrefixOf (front ++ c :: back) = old.isPrefixOf front :=
  isPrefixOf_congr (isPrefix_append_cons_iff hc)

theorem isPrefixOf_cons_of_not_mem (hold : old ≠ []) (hc : c ∉ old) (back : List Char) :
    old.isPrefixOf (c :: back) = false := by
  rw [← List.nil_append (c :: back), isPrefixOf_append_cons hc]
  exact isPrefixOf_eq_false.2 fun h => hold (List.prefix_nil.1 h)

/-- What stands before and behind a character that is not in the part is looked at on its own. -/
theorem replaceChars_append_cons (hold : old ≠ []) (hc : c ∉ old) (new front back : List Char) :
    replaceChars old new (front ++ c :: back) =
      replaceChars old new front ++ c :: replaceChars old new back := by
  have hnot := isPrefixOf_cons_of_not_mem hold hc back
  fun_induction replaceChars old new front with
  | case1 => rw [List.nil_append, replaceChars, hnot, if_neg Bool.false_ne_true, List.nil_append]
  | case2 first rest hprefix ih =>
    have hlonger : old.isPrefixOf (first :: (rest ++ c :: back)) = true := by
      rwa [← List.cons_append, isPrefixOf_append_cons hc]
    have hlength : old.length - 1 ≤ rest.length := by
      have := (List.isPrefixOf_iff_prefix.1 hprefix).length_le
      rw [List.length_cons] at this
      omega
    rw [List.cons_append, replaceChars, if_pos hlonger, List.drop_append_of_le_length hlength, ih,
      List.append_assoc]
  | case3 first rest hprefix ih =>
    have hlonger : ¬old.isPrefixOf (first :: (rest ++ c :: back)) = true := by
      rwa [← List.cons_append, isPrefixOf_append_cons hc]
    rw [List.cons_append, replaceChars, if_neg hlonger, ih, List.cons_append]

/-! ### What a replacement brings in -/

theorem mem_replaceChars {new cs : List Char} (h : c ∈ replaceChars old new cs) :
    c ∈ new ∨ c ∈ cs := by
  fun_induction replaceChars old new cs with
  | case1 => exact .inr h
  | case2 first rest hprefix ih =>
    rcases List.mem_append.1 h with h | h
    · exact .inl h
    · exact (ih h).imp_right fun h => List.mem_cons_of_mem _ (List.mem_of_mem_drop h)
  | case3 first rest hprefix ih =>
    rcases List.mem_cons.1 h with rfl | h
    · exact .inr List.mem_cons_self
    · exact (ih h).imp_right (List.mem_cons_of_mem _)

theorem replaceChars_ne_nil {new cs : List Char} (hnew : new ≠ []) (hcs : cs ≠ []) :
    replaceChars old new cs ≠ [] := by
  cases cs with
  | nil => exact absurd rfl hcs
  | cons first rest =>
    rw [replaceChars]
    split
    · exact List.append_ne_nil_of_left_ne_nil hnew _
    · exact List.cons_ne_nil _ _

/-- What a text begins with after a replacement, it began with before, unless it has to do with what
was brought in. -/
theorem isPrefix_of_isPrefix_replaceChars {part new cs : List Char} (hnew : new ≠ [])
    (hhead : ∀ c ∈ new.head?, c ∉ part) (h : part <+: replaceChars old new cs) : part <+: cs := by
  induction cs generalizing part with
  | nil => rwa [replaceChars] at h
  | cons first rest ih =>
    obtain ⟨d, more, rfl⟩ := List.exists_cons_of_ne_nil hnew
    cases part with
    | nil => exact List.nil_prefix
    | cons c tail =>
      rw [replaceChars] at h
      split at h
      · obtain ⟨rfl, -⟩ := List.cons_prefix_cons.1 h
        exact absurd List.mem_cons_self (hhead c rfl)
      · obtain ⟨rfl, htail⟩ := List.cons_prefix_cons.1 h
        have hrest := ih (fun e he hmem => hhead e he (List.mem_cons_of_mem _ hmem)) htail
        exact List.cons_prefix_cons.2 ⟨rfl, hrest⟩

/-- A replaced text starts as it did or with what was brought in. -/
theorem head?_replaceChars {new cs : List Char} (hnew : new ≠ [])
    (h : c ∈ (replaceChars old new cs).head?) : c ∈ new.head? ∨ c ∈ cs.head? := by
  cases cs with
  | nil => simp [replaceChars] at h
  | cons first rest =>
    rw [replaceChars] at h
    split at h
    · rw [List.head?_append_of_ne_nil _ hnew] at h
      exact .inl h
    · exact .inr h

/-- A replaced text ends as it did or with what was brought in. -/
theorem getLast?_replaceChars {new cs : List Char} (hnew : new ≠ [])
    (h : c ∈ (replaceChars old new cs).getLast?) : c ∈ new.getLast? ∨ c ∈ cs.getLast? := by
  fun_induction replaceChars old new cs with
  | case1 => exact .inr h
  | case2 first rest hprefix ih =>
    by_cases hdrop : rest.drop (old.length - 1) = []
    · rw [hdrop, replaceChars, List.append_nil] at h
      exact .inl h
    · rw [List.getLast?_append_of_ne_nil _ (replaceChars_ne_nil hnew hdrop)] at h
      refine (ih h).imp_right fun hlast => ?_
      have hlonger := List.drop_eq_nil_iff.not.1 hdrop
      rw [List.getLast?_drop, if_neg hlonger] at hlast
      exact List.mem_getLast?_cons hlast
  | case3 first rest hprefix ih =>
    by_cases hrest : rest = []
    · subst hrest
      rw [replaceChars] at h
      exact .inr h
    · rw [← List.singleton_append,
        List.getLast?_append_of_ne_nil _ (replaceChars_ne_nil hnew hrest)] at h
      exact (ih h).imp_right fun hlast => List.mem_getLast?_cons hlast

theorem replaceChars_eq_or_infix (old new cs : List Char) :
    replaceChars old new cs = cs ∨ new <:+: replaceChars old new cs := by
  fun_induction replaceChars old new cs with
  | case1 => exact .inl rfl
  | case2 first rest hprefix ih => exact .inr (List.prefix_append new _).isInfix
  | case3 first rest hprefix ih =>
    rcases ih with ih | ih
    · exact .inl (by rw [ih])
    · exact .inr (ih.trans (List.suffix_cons _ _).isInfix)

/-! ### Texts -/

section Texts

variable {old text : String}

theorem replace_of_not_infix (new : String) (h : ¬old.toList <:+: text.toList) :
    replace old new text = text := by
  rw [replace, replaceChars_of_not_infix _ h, String.ofList_toList]

theorem replace_pair {a b : Char} (hold : old.toList = [a, b]) (hab : a ≠ b) (new : String)
    {front : String} (h : ¬old.toList <:+: front.toList) (back : String) :
    replace old new (front ++ old ++ back) = front ++ new ++ replace old new back := by
  rw [hold] at h
  apply String.toList_injective
  simp only [replace, hold, String.toList_append, String.toList_ofList]
  rw [List.append_assoc, List.cons_append, List.cons_append, List.nil_append,
    replaceChars_pair hab _ h]

end Texts

end ApiTypings.Text
