/-!
Binary floating-point numbers of 64 bits as exact dyadic values.

A finite number is a sign, a significand and a power of two, so that nothing here rests on machine
arithmetic: reading a decimal is one exact division with rounding, and comparing a number with an
integer is integer arithmetic. The significand is kept below `2 ^ 53` and the exponent between
`-1074` and `971`, with the significand at least `2 ^ 52` whenever the exponent can still be
lowered; each number then has one representation.
-/

namespace ApiTypings

/-- A number of the binary64 format; `finite` stands for `significand * 2 ^ exponent`. -/
inductive Binary64 where
  | nan
  | infinite (negative : Bool)
  | finite (negative : Bool) (significand : Nat) (exponent : Int)
  deriving DecidableEq, Repr, Inhabited

namespace Binary64

/-- The least exponent, which zero and the subnormal numbers carry. -/
def leastExponent : Int := -1074

/-- The greatest exponent of a finite number. -/
def greatestExponent : Int := 971

def zero (negative : Bool) : Binary64 := .finite negative 0 leastExponent

/-- `num / den` rounded to the nearest integer, a half going to the even neighbour. -/
def roundRatio (num den : Nat) : Nat :=
  let whole := num / den
  let rest := 2 * (num % den)
  if den < rest ∨ (rest = den ∧ whole % 2 = 1) then whole + 1 else whole

/-- `num / den` after division by `2 ^ shift`, as a ratio again. -/
def scaleRatio (num den : Nat) : Int → Nat × Nat
  | .ofNat shift => (num, den * Nat.pow 2 shift)
  | .negSucc shift => (num * Nat.pow 2 (shift + 1), den)

/-- The exponent at which `num / den` has 53 significant bits, or the least one if it is small. -/
def exponentOf (num den : Nat) : Int :=
  let guess := max leastExponent ((Nat.log2 num : Int) - Nat.log2 den - 53)
  let (n, d) := scaleRatio num den guess
  if n / d < Nat.pow 2 53 then guess else guess + 1

/-- The number nearest to `num / den`, a tie going to the even significand. -/
def ofRatio (negative : Bool) (num den : Nat) : Binary64 :=
  if num = 0 then zero negative
  else
    let exponent := exponentOf num den
    let (n, d) := scaleRatio num den exponent
    let rounded := roundRatio n d
    let (significand, exponent) :=
      if rounded = Nat.pow 2 53 then (Nat.pow 2 52, exponent + 1) else (rounded, exponent)
    if greatestExponent < exponent then .infinite negative
    else .finite negative significand exponent

/-- Decimal exponents beyond this bound leave the range of the format for every significand whose
digits were taken into account. -/
def decimalBound : Int := 400

/-- The number nearest to `digits * 10 ^ scale`. A value far outside the range is settled by its
digit count, so that the power of ten stays small. -/
def ofDecimal (negative : Bool) (digits : Nat) (scale : Int) : Binary64 :=
  if digits = 0 then zero negative
  else
    let magnitude := ((Nat.toDigits 10 digits).length : Int) + scale
    if decimalBound < magnitude then .infinite negative
    else if magnitude < -decimalBound then zero negative
    else
      match scale with
      | .ofNat k => ofRatio negative (digits * Nat.pow 10 k) 1
      | .negSucc k => ofRatio negative digits (Nat.pow 10 (k + 1))

/-- The integer a finite number equals, if it is whole. -/
def toInt? : Binary64 → Option Int
  | .finite negative significand exponent =>
    let magnitude? : Option Nat :=
      match exponent with
      | .ofNat k => some (significand * Nat.pow 2 k)
      | .negSucc k =>
        let unit := Nat.pow 2 (k + 1)
        if significand % unit = 0 then some (significand / unit) else none
    magnitude?.map fun m => if negative then -(m : Int) else m
  | _ => none

/-- Whether the number is less than an integer, `strictly` or not. Nothing compares with what is not a
number. -/
def isBelow (x : Binary64) (n : Int) (strictly : Bool) : Bool :=
  match x with
  | .nan => false
  | .infinite negative => negative
  | .finite negative significand exponent =>
    let magnitude : Int := significand * Int.pow 2 exponent.toNat
    let own := if negative then -magnitude else magnitude
    let other := n * Int.pow 2 (-exponent).toNat
    if strictly then own < other else own ≤ other

/-- Whether the number is a zero of either sign. -/
def isZero : Binary64 → Bool
  | .finite _ significand _ => significand == 0
  | _ => false

end Binary64

end ApiTypings
