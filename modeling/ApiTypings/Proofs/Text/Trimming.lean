import ApiTypings.Text.Blank
import Mathlib.Data.List.Basic
import Mathlib.Data.List.TakeWhile

/-!
Trimmed texts.

A text is trimmed if it neither starts nor ends with a blank character, so whatever leaves the first
and the last character alone, or puts other characters that are not blank in their place, keeps it
trimmed.
-/

namespace ApiTypings.Text

variable {cs : List Char}

/-- The code points of the blank characters. -/
def blankCodes : List Nat :=
  List.range' 9 5 ++ List.range' 28 5 ++ [0x85, 0xA0, 0x1680] ++ List.range' 0x2000 11 ++
    [0x2028, 0x2029, 0x202F, 0x205F, 0x3000]

theorem mem_blankCodes {c : Char} (h : isBlank c = true) : c.toNat ∈ blankCodes := by
  simp only [isBlank, Bool.or_eq_true, Bool.and_eq_true, decide_eq_true_eq, beq_iff_eq] at h
  simp only [blankCodes, List.mem_append, List.mem_range'_1, List.mem_cons, List.not_mem_nil]
  omega

theorem trimChars_eq_self_iff :
    trimChars cs = cs ↔
      (∀ c ∈ cs.head?, isBlank c = false) ∧ ∀ c ∈ cs.getLast?, isBlank c = false := by
  constructor
  · intro h
    constructor
    · intro c hc
      obtain ⟨rest, rfl⟩ := List.head?_eq_some_iff.1 hc
      by_contra hblank
      have hstart : trimStartChars (c :: rest) = trimStartChars rest := by
        rw [trimStartChars, List.dropWhile_cons_of_pos (by simpa using hblank), trimStartChars]
      have hlength := length_trimChars_le rest
      rw [trimChars, ← hstart, ← trimChars, h, List.length_cons] at hlength
      omega
    · intro c hc
      rw [← h, trimChars] at hc
      rcases trimEndChars_eq_nil_or (trimStartChars cs) with hnil | ⟨front, d, hlast, hd⟩
      · rw [hnil] at hc
        cases hc
      · rw [hlast, List.getLast?_concat, Option.mem_some_iff] at hc
        exact hc ▸ hd
  · rintro ⟨hhead, hlast⟩
    rcases List.eq_nil_or_concat cs with rfl | ⟨front, d, rfl⟩
    · rfl
    · have hd : isBlank d = false := hlast d (by simp)
      have hstart : trimStartChars (front ++ [d]) = front ++ [d] := by
        cases front with
        | nil => exact trimStartChars_cons hd []
        | cons c rest => exact trimStartChars_cons (hhead c rfl) _
      rw [trimChars, List.concat_eq_append, hstart, trimEndChars_concat hd]

/-- Only a blank text is trimmed to nothing. -/
theorem trimChars_eq_nil_iff : trimChars cs = [] ↔ ∀ c ∈ cs, isBlank c = true := by
  constructor
  · intro h
    have hrest : ∀ c ∈ trimStartChars cs, isBlank c = true := by
      intro c hc
      rw [trimChars, trimEndChars, List.reverse_eq_nil_iff, List.dropWhile_eq_nil_iff] at h
      exact h c (List.mem_reverse.2 hc)
    cases hstart : trimStartChars cs with
    | nil => exact List.dropWhile_eq_nil_iff.1 hstart
    | cons c rest =>
        have hc := List.head?_dropWhile_not isBlank cs
        rw [← trimStartChars, hstart] at hc
        have hblank : isBlank c = true := hrest c (hstart ▸ List.mem_cons_self)
        exact absurd (hblank.symm.trans hc) (by decide)
  · intro h
    rw [trimChars, trimStartChars, List.dropWhile_eq_nil_iff.2 h]
    rfl

theorem trimChars_append_cons {c : Char} {back : List Char} (hc : isBlank c = false)
    (hcs : trimChars cs = cs) (hback : trimChars back = back) :
    trimChars (cs ++ c :: back) = cs ++ c :: back := by
  rw [trimChars_eq_self_iff] at hcs hback ⊢
  constructor
  · intro d hd
    cases cs with
    | nil => exact Option.mem_some_iff.1 hd ▸ hc
    | cons first rest => exact hcs.1 d hd
  · intro d hd
    rcases List.eq_nil_or_concat back with rfl | ⟨front, last, rfl⟩
    · rw [List.getLast?_concat, Option.mem_some_iff] at hd
      exact hd ▸ hc
    · rw [List.getLast?_append_of_ne_nil _ (List.cons_ne_nil _ _),
        List.getLast?_cons_of_ne_nil (by simp)] at hd
      exact hback.2 d hd

/-- Blank characters in front do not matter. -/
theorem trimChars_append_of_blank {pad : List Char} (h : ∀ c ∈ pad, isBlank c = true)
    (cs : List Char) : trimChars (pad ++ cs) = trimChars cs := by
  rw [trimChars, trimStartChars, List.dropWhile_append_of_pos h, ← trimStartChars, ← trimChars]

end ApiTypings.Text
