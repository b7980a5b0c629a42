import ApiTypings.Proofs.Text.Trimming
import ApiTypings.TypeText.Reading

/-!
Single names in type texts.

A type text is structured by brackets, bars and commas. A name has none of them and is trimmed, so it
is not taken apart wherever it stands. Dotted identifiers are such names, since neither the
characters that structure a text nor the blank ones occur in them.
-/

namespace ApiTypings.TypeText

variable {c : Char} {cs : List Char}

/-- The characters that structure a type text. -/
def isMark (c : Char) : Bool := ['<', '>', '(', ')', ',', '|'].contains c

theorem eq_of_isMark (h : isMark c = true) :
    c = '<' ∨ c = '>' ∨ c = '(' ∨ c = ')' ∨ c = ',' ∨ c = '|' := by
  simpa [isMark] using h

/-- A text that is a single name: not empty, trimmed, and without structure. -/
structure Plain (cs : List Char) : Prop where
  nonempty : cs ≠ []
  trimmed : Text.trimChars cs = cs
  unmarked : ∀ c ∈ cs, isMark c = false

theorem Plain.not_mem (h : Plain cs) (hc : isMark c = true) : c ∉ cs := fun hmem =>
  Bool.false_ne_true ((h.unmarked c hmem).symm.trans hc)

theorem Plain.flat (h : Plain cs) : ∀ c ∈ cs, bracketStep c = 0 := by
  intro c hc
  obtain ⟨hopen, hclose, hopenRound, hcloseRound, -⟩ : c ≠ '<' ∧ c ≠ '>' ∧ c ≠ '(' ∧ c ≠ ')' ∧
      c ≠ ',' ∧ c ≠ '|' := by simpa [isMark] using h.unmarked c hc
  simp [bracketStep, hopen, hclose, hopenRound, hcloseRound]

/-! ### Dotted names -/

/-- Whether a text is a dotted identifier, as the base of a generic has to be. -/
def isDottedName : List Char → Bool
  | [] => false
  | c :: rest => isGenericStart c && rest.all isGenericChar

theorem isGenericChar_of_start (h : isGenericStart c = true) :
    isGenericChar c = true := by
  rw [isGenericStart, Bool.or_eq_true] at h
  rw [isGenericChar, Unicode.isWordChar]
  rcases h with h | h
  · rw [h, Bool.true_or, Bool.or_true]
  · have hascii : c.toNat < 0x80 := by
      rcases (Bool.or_eq_true c.isUpper c.isLower).mp h with h | h
      · have hle : c.val ≤ 'Z'.val := (of_decide_eq_true h).2
        exact Nat.lt_of_le_of_lt (UInt32.le_iff_toNat_le.1 hle) (by decide)
      · have hle : c.val ≤ 'z'.val := of_decide_eq_true ((Bool.and_eq_true _ _).mp h).2
        exact Nat.lt_of_le_of_lt (UInt32.le_iff_toNat_le.1 hle) (by decide)
    have halphanum : c.isAlphanum = true := (Bool.or_eq_true _ _).mpr (.inl h)
    rw [Unicode.isAlphanumeric_of_isAlphanum halphanum hascii, Bool.or_true, Bool.or_true]

theorem isBlank_of_isGenericChar (h : isGenericChar c = true) :
    Text.isBlank c = false := by
  have hcodes : ∀ n ∈ Text.blankCodes, isGenericChar (Char.ofNat n) = false := by decide +kernel
  refine Bool.eq_false_iff.2 fun hblank => ?_
  have hc := hcodes _ (Text.mem_blankCodes hblank)
  rw [Char.ofNat_toNat, h] at hc
  cases hc

theorem isMark_of_isGenericChar (h : isGenericChar c = true) : isMark c = false := by
  refine Bool.eq_false_iff.2 fun hmark => absurd h ?_
  rcases eq_of_isMark hmark with rfl | rfl | rfl | rfl | rfl | rfl <;> decide

/-- A dotted identifier is a single name. -/
theorem plain_of_isDottedName (h : isDottedName cs = true) : Plain cs := by
  have hchars : ∀ c ∈ cs, isGenericChar c = true := by
    cases cs with
    | nil => exact fun c hc => absurd hc List.not_mem_nil
    | cons c rest =>
      rw [isDottedName, Bool.and_eq_true, List.all_eq_true] at h
      exact List.forall_mem_cons.2 ⟨isGenericChar_of_start h.1, h.2⟩
  have hblank : ∀ c ∈ cs, Text.isBlank c = false := fun c hc =>
    isBlank_of_isGenericChar (hchars c hc)
  refine ⟨?_, Text.trimChars_eq_self_iff.2 ⟨fun c hc => ?_, fun c hc => ?_⟩, fun c hc => ?_⟩
  · rintro rfl
    cases h
  · exact hblank c (List.mem_of_mem_head? hc)
  · exact hblank c (List.mem_of_mem_getLast? hc)
  · exact isMark_of_isGenericChar (hchars c hc)

end ApiTypings.TypeText
