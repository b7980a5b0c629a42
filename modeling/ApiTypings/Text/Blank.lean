/-!
Blank characters, trimming and words.

The blank characters are those that Unicode treats as white space or as a separator of paragraphs,
lines or information units. Every operation is defined on lists of characters, where its laws are
proved, and has a form on strings.
-/

namespace ApiTypings.Text

/-- The characters that trimming removes and that separate words. -/
def isBlank (c : Char) : Bool :=
  let n := c.toNat
  (9 ≤ n && n ≤ 13) || (28 ≤ n && n ≤ 32) || n == 0x85 || n == 0xA0 || n == 0x1680 ||
    (0x2000 ≤ n && n ≤ 0x200A) || n == 0x2028 || n == 0x2029 || n == 0x202F || n == 0x205F ||
    n == 0x3000

/-- The characters without the blank ones in front. -/
def trimStartChars (cs : List Char) : List Char := cs.dropWhile isBlank

/-- The characters without the blank ones at the end. -/
def trimEndChars (cs : List Char) : List Char := (cs.reverse.dropWhile isBlank).reverse

/-- The characters without the blank ones at either end. -/
def trimChars (cs : List Char) : List Char := trimEndChars (trimStartChars cs)

/-- The maximal runs of characters that are not blank. -/
def wordsOfChars (cs : List Char) : List (List Char) :=
  (cs.splitOnP isBlank).filter (!·.isEmpty)

def trim (s : String) : String := String.ofList (trimChars s.toList)

def trimEnd (s : String) : String := String.ofList (trimEndChars s.toList)

/-- The words of a text, in order. -/
def words (s : String) : List String := (wordsOfChars s.toList).map String.ofList

@[simp] theorem toList_trim (s : String) : (trim s).toList = trimChars s.toList := by simp [trim]

@[simp] theorem toList_trimEnd (s : String) : (trimEnd s).toList = trimEndChars s.toList := by
  simp [trimEnd]

/-! ### Texts that are trimmed already -/

theorem trimStartChars_cons {c : Char} (h : isBlank c = false) (cs : List Char) :
    trimStartChars (c :: cs) = c :: cs := by
  simp [trimStartChars, h]

theorem trimEndChars_concat {c : Char} (h : isBlank c = false) (cs : List Char) :
    trimEndChars (cs ++ [c]) = cs ++ [c] := by
  simp [trimEndChars, h]

/-- Trimming at the end leaves nothing or stops at a character that is not blank. -/
theorem trimEndChars_eq_nil_or (cs : List Char) :
    trimEndChars cs = [] ∨ ∃ front c, trimEndChars cs = front ++ [c] ∧ isBlank c = false := by
  unfold trimEndChars
  cases h : cs.reverse.dropWhile isBlank with
  | nil => exact .inl rfl
  | cons c rest =>
      have hc := List.head?_dropWhile_not isBlank cs.reverse
      rw [h] at hc
      exact .inr ⟨rest.reverse, c, List.reverse_cons, hc⟩

/-- What is left in front when the end is trimmed starts as it did. -/
theorem trimEndChars_isPrefix (cs : List Char) : trimEndChars cs <+: cs := by
  have h := List.reverse_prefix.2 (List.dropWhile_suffix (l := cs.reverse) isBlank)
  rwa [List.reverse_reverse] at h

theorem trimChars_trimChars (cs : List Char) : trimChars (trimChars cs) = trimChars cs := by
  have hstart : trimStartChars (trimChars cs) = trimChars cs := by
    rw [trimChars]
    cases hd : trimStartChars cs with
    | nil => rfl
    | cons c rest =>
        have hc := List.head?_dropWhile_not isBlank cs
        rw [show cs.dropWhile isBlank = c :: rest from hd] at hc
        cases ht : trimEndChars (c :: rest) with
        | nil => rfl
        | cons d front =>
            have hprefix := trimEndChars_isPrefix (c :: rest)
            rw [ht] at hprefix
            obtain ⟨rfl, -⟩ := List.cons_prefix_cons.1 hprefix
            exact trimStartChars_cons hc front
  rw [trimChars, hstart]
  rcases trimEndChars_eq_nil_or (trimStartChars cs) with h | ⟨front, c, h, hc⟩
  · rw [trimChars, h]
    rfl
  · rw [trimChars, h]
    exact trimEndChars_concat hc front

/-- A trimmed text is not changed by trimming it. -/
@[simp] theorem trim_trim (s : String) : trim (trim s) = trim s := by
  rw [trim, toList_trim, trimChars_trimChars, trim]

/-- A text between two characters that are not blank is trimmed already. -/
theorem trim_of_ends {s : String} {c d : Char} {cs : List Char} (h : s.toList = c :: cs ++ [d])
    (hc : isBlank c = false) (hd : isBlank d = false) : trim s = s := by
  have hstart : trimStartChars (c :: cs ++ [d]) = c :: cs ++ [d] := trimStartChars_cons hc _
  rw [trim, h, trimChars, hstart, trimEndChars_concat hd, ← h, String.ofList_toList]

/-- Trimming takes a text from within. -/
theorem trimChars_isInfix (cs : List Char) : trimChars cs <:+: cs :=
  (trimEndChars_isPrefix _).isInfix.trans (List.dropWhile_suffix isBlank).isInfix

theorem length_trimChars_le (cs : List Char) : (trimChars cs).length ≤ cs.length :=
  (trimChars_isInfix cs).length_le

end ApiTypings.Text
