import ApiTypings.Unicode.Alphanumeric
import ApiTypings.Unicode.CaseMap
import ApiTypings.Unicode.Digit
import ApiTypings.Unicode.Unprintable

/-!
Character classes and case forms over all of Unicode.

ASCII is decided by comparison and everything else by the tables, so that a question about an ASCII
character never reads a table. The case forms take no notice of neighbouring characters: a capital
sigma has one lower case form wherever it stands, which no comparison with an ASCII word can tell.
-/

namespace ApiTypings.Unicode

/-- Whether a code point lies in one of the runs of a table. -/
def inRanges (n : Nat) (ranges : List (Nat × Nat)) : Bool :=
  ranges.any fun (low, high) => low ≤ n && n ≤ high

/-- Letters and numbers. -/
def isAlphanumeric (c : Char) : Bool :=
  if c.toNat < 0x80 then c.isAlphanum else inRanges c.toNat alphanumericRanges

/-- The characters of a word in an identifier: letters, numbers and the underscore. -/
def isWordChar (c : Char) : Bool := c == '_' || isAlphanumeric c

/-- Decimal digits. -/
def isDecimalDigit (c : Char) : Bool :=
  if c.toNat < 0x80 then 0x30 ≤ c.toNat && c.toNat ≤ 0x39
  else inRanges c.toNat decimalRanges

/-- Characters with the value of a digit. -/
def isDigit (c : Char) : Bool :=
  isDecimalDigit c || (decide (0x80 ≤ c.toNat) && inRanges c.toNat digitFormRanges)

/-- Characters that a quoted text shows as they are. -/
def isPrintable (c : Char) : Bool :=
  if c.toNat < 0x80 then 0x20 ≤ c.toNat && c.toNat < 0x7F
  else !inRanges c.toNat unprintableRanges

/-- The case form of a character in a pair of tables. -/
def caseForm (runs : List CaseRun) (sequences : List (Nat × List Nat)) (c : Char) : List Char :=
  match runs.find? (·.covers c.toNat) with
  | some r => [Char.ofNat (c.toNat + r.distance).toNat]
  | none =>
    match sequences.lookup c.toNat with
    | some ns => ns.map Char.ofNat
    | none => [c]

/-- The upper case form of a character, which may be several characters. -/
def upperForm (c : Char) : List Char :=
  if c.toNat < 0x80 then [c.toUpper] else caseForm upperRuns upperSequences c

/-- The lower case form of a character, which may be several characters. -/
def lowerForm (c : Char) : List Char :=
  if c.toNat < 0x80 then [c.toLower] else caseForm lowerRuns lowerSequences c

def upper (s : String) : String := String.ofList (s.toList.flatMap upperForm)

def lower (s : String) : String := String.ofList (s.toList.flatMap lowerForm)

/-- Every ASCII letter or digit is alphanumeric. -/
theorem isAlphanumeric_of_isAlphanum {c : Char} (h : c.isAlphanum = true)
    (hc : c.toNat < 0x80) : isAlphanumeric c = true := by
  simp [isAlphanumeric, hc, h]

end ApiTypings.Unicode
