import ApiTypings.Declaration.Name
import ApiTypings.Proofs.Text.Replacement
import Mathlib.Data.List.TakeWhile
import Mathlib.Logic.Function.Basic

/-!
Keys that are read back.

A quoted key is read up to the quote that closes it, where a backslash makes the character behind it
a plain one. What is read is the name, so names are as different as their quoted keys. A key that
is not quoted is an identifier, or one with a line feed behind it; it does not begin with a quote,
so that it is not the key of another name either.
-/

namespace ApiTypings.Declaration

/-- Reads a literal whose quote has been opened: its characters, and what is left behind the quote
that closes it. -/
def readQuoted : List Char → Option (List Char × List Char)
  | [] => none
  | ['\\'] => none
  | '\\' :: c :: rest => (readQuoted rest).map fun read => (c :: read.1, read.2)
  | '\'' :: rest => some ([], rest)
  | c :: rest => (readQuoted rest).map fun read => (c :: read.1, read.2)

/-- A quoted name is read as that name, whatever follows. -/
theorem readQuoted_quoted (cs rest : List Char) :
    readQuoted (cs.flatMap quotedKeyChar ++ '\'' :: rest) = some (cs, rest) := by
  induction cs with
  | nil => rfl
  | cons c cs ih =>
    rw [List.flatMap_cons, List.append_assoc]
    by_cases hescaped : c = '\\' ∨ c = '\''
    · rw [quotedKeyChar, if_pos hescaped, List.cons_append, List.singleton_append, readQuoted, ih]
      rfl
    · obtain ⟨hbackslash, hquote⟩ := not_or.1 hescaped
      rw [quotedKeyChar, if_neg hescaped, List.singleton_append, readQuoted, ih]
      · rfl
      · exact fun h _ => hbackslash h
      · exact fun _ _ h _ => hbackslash h
      · exact fun h => hquote h

theorem quotedKeyText_injective : Function.Injective quotedKeyText := by
  intro name other h
  have hchars : name.toList.flatMap quotedKeyChar ++ ['\''] =
      other.toList.flatMap quotedKeyChar ++ ['\''] :=
    (List.cons.inj (String.ofList_injective h)).2
  have hread := congrArg readQuoted hchars
  rw [readQuoted_quoted, readQuoted_quoted] at hread
  exact String.toList_injective (congrArg Prod.fst (Option.some.inj hread))

/-! ### Literals -/

/-- Reads a text that begins with a literal: what the literal spells, and what is left behind it. -/
def readLiteral : List Char → Option (List Char × List Char)
  | '\'' :: rest => readQuoted rest
  | _ => none

theorem readLiteral_quotedKeyText (name : String) :
    readLiteral (quotedKeyText name).toList = some (name.toList, []) := by
  rw [quotedKeyText, String.toList_ofList, List.cons_append, readLiteral, readQuoted_quoted]

/-- Escaping the backslashes first and the quotes afterwards escapes each character once. -/
theorem quotedKeyText_eq_replace (name : String) :
    quotedKeyText name =
      "'" ++ Text.replace "'" "\\'" (Text.replace "\\" "\\\\" name) ++ "'" := by
  have hchar (c : Char) :
      (if c = '\\' then ['\\', '\\'] else [c]).flatMap
        (fun d => if d = '\'' then ['\\', '\''] else [d]) = quotedKeyChar c := by
    by_cases hbackslash : c = '\\'
    · subst hbackslash
      rfl
    · rw [if_neg hbackslash, List.flatMap_singleton, quotedKeyChar]
      by_cases hquote : c = '\''
      · subst hquote
        rfl
      · rw [if_neg hquote, if_neg (not_or.2 ⟨hbackslash, hquote⟩)]
  have hescaped : Text.replaceChars ['\''] ['\\', '\'']
      (Text.replaceChars ['\\'] ['\\', '\\'] name.toList) = name.toList.flatMap quotedKeyChar := by
    rw [Text.replaceChars_singleton, Text.replaceChars_singleton, List.flatMap_assoc]
    exact List.flatMap_congr fun c _ => hchar c
  apply String.toList_injective
  simp only [quotedKeyText, Text.replace, String.toList_append, String.toList_ofList]
  exact congrArg (fun cs => '\'' :: cs ++ ['\'']) hescaped.symm

/-! ### Keys of members -/

/-- That a name is written as a key: as that of a property, or as that of an event in a map. -/
def IsKeyOf (name : Json) (key : String) : Prop :=
  memberKey name = .ok key ∨ quotedKey name = .ok key

/-- A key is a name that is an identifier, or a literal. -/
theorem IsKeyOf.exists_text {name : Json} {key : String} (h : IsKeyOf name key) :
    ∃ text : String, name = .str text ∧
      (key = text ∧ isIdentifierLike text.toList = true ∨ key = quotedKeyText text) := by
  cases name with
  | str text =>
      refine ⟨text, rfl, ?_⟩
      rcases h with h | h
      · obtain rfl : memberKeyText text = key := Except.ok.inj h
        unfold memberKeyText
        split
        next hidentifier => exact .inl ⟨rfl, hidentifier⟩
        · exact .inr rfl
      · exact .inr (Except.ok.inj h).symm
  | _ => rcases h with h | h <;> cases h

theorem isIdentifierLike_quotedKeyText (name : String) :
    isIdentifierLike (quotedKeyText name).toList = false := by
  rw [quotedKeyText, String.toList_ofList, List.cons_append, isIdentifierLike]
  rfl

theorem IsKeyOf.unique {name other : Json} {key : String} (hname : IsKeyOf name key)
    (hother : IsKeyOf other key) : name = other := by
  obtain ⟨text, rfl, ⟨rfl, htext⟩ | rfl⟩ := hname.exists_text
  · obtain ⟨text', rfl, ⟨rfl, -⟩ | rfl⟩ := hother.exists_text
    · rfl
    · rw [isIdentifierLike_quotedKeyText] at htext
      cases htext
  · obtain ⟨text', rfl, ⟨hkey, htext'⟩ | hkey⟩ := hother.exists_text
    · rw [← hkey, isIdentifierLike_quotedKeyText] at htext'
      cases htext'
    · rw [quotedKeyText_injective hkey]

/-- A quoted key is one literal from its first to its last character and spells the name; and no two
names are written as one key. -/
theorem keys_read_as_names :
    (∀ name : String, ∃ key, quotedKey (.str name) = .ok key ∧
      key = "'" ++ Text.replace "'" "\\'" (Text.replace "\\" "\\\\" name) ++ "'" ∧
      readLiteral key.toList = some (name.toList, [])) ∧
    ∀ (name other : Json) (key : String), IsKeyOf name key → IsKeyOf other key → name = other :=
  ⟨fun name => ⟨quotedKeyText name, rfl, quotedKeyText_eq_replace name,
      readLiteral_quotedKeyText name⟩,
    fun _ _ _ hname hother => hname.unique hother⟩

/-- A quote behind a backslash, and a backslash at the end. -/
theorem keys_read_as_names_trailingBackslash :
    IsKeyOf (.str "a\\'b\\") "'a\\\\\\'b\\\\'" ∧
      (∀ other, IsKeyOf other "'a\\\\\\'b\\\\'" → other = .str "a\\'b\\") ∧
      readLiteral "'a\\\\\\'b\\\\'".toList = some ("a\\'b\\".toList, []) := by
  have hquoted : quotedKey (.str "a\\'b\\") = .ok "'a\\\\\\'b\\\\'" := by decide
  obtain ⟨key, hkey, -, hread⟩ := keys_read_as_names.1 "a\\'b\\"
  obtain rfl := Except.ok.inj (hquoted.symm.trans hkey)
  exact ⟨.inr hquoted, fun other hother => keys_read_as_names.2 _ _ _ hother (.inr hquoted), hread⟩

/-! ### Identifiers -/

/-- Whether characters form an identifier. -/
def isProperIdentifier : List Char → Bool
  | [] => false
  | c :: rest => isIdentifierStart c && rest.all isIdentifierChar

def breaksLine (c : Char) : Bool := c == '\n' || c == '\r'

variable {c : Char}

theorem breaksLine_of_isIdentifierChar (h : isIdentifierChar c = true) : breaksLine c = false := by
  rw [breaksLine, Bool.or_eq_false_iff, beq_eq_false_iff_ne, beq_eq_false_iff_ne]
  exact ⟨fun hc => absurd (hc ▸ h) (by decide), fun hc => absurd (hc ▸ h) (by decide)⟩

theorem isIdentifierChar_of_isIdentifierStart (h : isIdentifierStart c = true) :
    isIdentifierChar c = true := by
  rw [isIdentifierStart, Bool.or_eq_true, Bool.or_eq_true, beq_iff_eq, beq_iff_eq] at h
  rcases h with (rfl | rfl) | halpha
  · decide
  · decide
  · have hascii : c.toNat < 0x80 := by
      rcases Bool.or_eq_true_iff.1 halpha with hupper | hlower
      · have hlast : c.toNat ≤ 'Z'.toNat := UInt32.le_iff_toNat_le.1 (of_decide_eq_true hupper).2
        exact lt_of_le_of_lt hlast (by decide)
      · have hlast : c.toNat ≤ 'z'.toNat :=
          UInt32.le_iff_toNat_le.1 (of_decide_eq_true (Bool.and_eq_true_iff.1 hlower).2)
        exact lt_of_le_of_lt hlast (by decide)
    simp [isIdentifierChar, Unicode.isWordChar, Unicode.isAlphanumeric, hascii, Char.isAlphanum,
      halpha]

/-- All characters of an identifier may stand within one. -/
theorem isIdentifierChar_of_mem {cs : List Char} (h : isProperIdentifier cs = true) (hc : c ∈ cs) :
    isIdentifierChar c = true := by
  cases cs with
  | nil => cases hc
  | cons d rest =>
      obtain ⟨hstart, hrest⟩ := Bool.and_eq_true_iff.1 h
      rcases List.mem_cons.1 hc with rfl | hc
      · exact isIdentifierChar_of_isIdentifierStart hstart
      · exact List.all_eq_true.1 hrest c hc

/-- What is taken for an identifier is one if it stands on one line. -/
theorem isProperIdentifier_iff (cs : List Char) :
    isProperIdentifier cs = true ↔ isIdentifierLike cs = true ∧ cs.all (!breaksLine ·) = true := by
  cases cs with
  | nil => simp [isProperIdentifier, isIdentifierLike]
  | cons c rest =>
      rw [isProperIdentifier, isIdentifierLike, Bool.and_eq_true, Bool.and_eq_true, and_assoc]
      refine and_congr_right fun hstart => ?_
      have hchar := isIdentifierChar_of_isIdentifierStart hstart
      rw [List.all_cons, breaksLine_of_isIdentifierChar hchar, Bool.not_false, Bool.true_and]
      constructor
      · intro hrest
        have hdrop : rest.dropWhile isIdentifierChar = [] :=
          List.dropWhile_eq_nil_iff.2 (List.all_eq_true.1 hrest)
        refine ⟨by simp [hdrop], List.all_eq_true.2 fun d hd => ?_⟩
        rw [breaksLine_of_isIdentifierChar (List.all_eq_true.1 hrest d hd), Bool.not_false]
      · rintro ⟨hend, hline⟩
        rw [Bool.or_eq_true, List.isEmpty_iff, beq_iff_eq] at hend
        rcases hend with hnil | hfeed
        · exact List.all_eq_true.2 (List.dropWhile_eq_nil_iff.1 hnil)
        · have hmem : '\n' ∈ rest :=
            (List.dropWhile_suffix _).subset (hfeed ▸ List.mem_singleton.2 rfl)
          exact absurd (List.all_eq_true.1 hline _ hmem) (by decide)

end ApiTypings.Declaration
