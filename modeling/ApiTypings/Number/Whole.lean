import ApiTypings.Fault
import ApiTypings.Json.Basic
import ApiTypings.Json.Reader
import ApiTypings.Text.Blank
import ApiTypings.Unicode.CharClass

/-!
Integers as they are read from settings.

A setting that is to be an integer may be given as a number of any kind, whose places behind the
point are dropped, or as a text with decimal digits of any script. Underscores may part the digits
of a text, and blanks may stand around it.
-/

namespace ApiTypings.Whole

/-- The value of a decimal digit: the digits of each script lie in a row from zero on. -/
def digitValue? (c : Char) : Option Nat :=
  if c.toNat < 0x80 then if c.isDigit then some (c.toNat - '0'.toNat) else none
  else
    (Unicode.decimalRanges.find? fun r => r.1 ≤ c.toNat && c.toNat ≤ r.2).map fun r =>
      (c.toNat - r.1) % 10

/-- The digits of a text in which single underscores may stand between two digits. -/
def digitsFrom : List Char → Option (List Nat)
  | [] => none
  | [c] => (digitValue? c).map fun d => [d]
  | c :: '_' :: rest => do
    let d ← digitValue? c
    let ds ← digitsFrom rest
    pure (d :: ds)
  | c :: rest => do
    let d ← digitValue? c
    let ds ← digitsFrom rest
    pure (d :: ds)

/-- The integer that digits stand for, the first one having the greatest weight. -/
def ofDigits (digits : List Nat) : Nat := digits.foldl (fun n d => n * 10 + d) 0

/-- The integer that a text spells. -/
def ofText (s : String) : Except Fault Int :=
  let cs := Text.trimChars s.toList
  let (negative, cs) := match cs with
    | '-' :: rest => (true, rest)
    | '+' :: rest => (false, rest)
    | cs => (false, cs)
  match digitsFrom cs with
  | none => .error (.notAnInteger s)
  | some digits =>
    if Json.mostDigits < digits.length then .error (.tooManyDigits digits.length)
    else
      let n : Int := ofDigits digits
      .ok (if negative then -n else n)

/-- A finite number without its places behind the point. -/
def truncate (negative : Bool) (significand : Nat) (exponent : Int) : Int :=
  let magnitude : Nat := match exponent with
    | .ofNat k => significand * Nat.pow 2 k
    | .negSucc k => significand / Nat.pow 2 (k + 1)
  if negative then -(magnitude : Int) else magnitude

/-- The integer that a setting stands for. -/
def ofJson : Json → Except Fault Int
  | .int n => .ok n
  | .bool b => .ok (if b then 1 else 0)
  | .float .nan => .error (.notAnInteger "nan")
  | .float (.infinite _) => .error .infinite
  | .float (.finite negative significand exponent) =>
    .ok (truncate negative significand exponent)
  | .str s => ofText s
  | _ => .error (.wrongKind "number")

@[simp] theorem ofJson_int (n : Int) : ofJson (.int n) = .ok n := rfl

end ApiTypings.Whole
