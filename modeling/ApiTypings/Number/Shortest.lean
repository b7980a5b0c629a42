import ApiTypings.Number.Binary64

/-!
The shortest decimal that reads back as a given number.

The reals that round to a finite number form an interval around it, closed exactly when the
significand is even. For one digit, two digits and so on, the two neighbours of the number on the
decimal grid of that many digits are tested against the interval in integer arithmetic; the first
grid with a hit wins, and of two hits the nearer one, a tie going to the even digit. Seventeen
digits always suffice.

How such a decimal is laid out (where positional notation ends, how an exponent is written) is the
matter of `DecimalLayout`, a record the writer of a format chooses.
-/

namespace ApiTypings

/-- A positive decimal `digits * 10 ^ scale`. -/
structure Decimal where
  digits : Nat
  scale : Int
  deriving DecidableEq, Repr, Inhabited

namespace Decimal

/-- Moves trailing zeros of the digits into the scale; `fuel` bounds their number. -/
def trim : Nat → Decimal → Decimal
  | 0, d => d
  | fuel + 1, d =>
    if d.digits ≠ 0 ∧ d.digits % 10 = 0 then trim fuel ⟨d.digits / 10, d.scale + 1⟩ else d

end Decimal

/-- The ratio `factor * base ^ power`. -/
def powerRatio (base factor : Nat) : Int → Nat × Nat
  | .ofNat k => (factor * Nat.pow base k, 1)
  | .negSucc k => (factor, Nat.pow base (k + 1))

/-- Whether the first ratio is less than the second. -/
def ratioLt (a b : Nat × Nat) : Bool := a.1 * b.2 < b.1 * a.2

/-- The reals that round to one number: the ends of the interval, and whether they belong to it. -/
structure RoundingInterval where
  low : Nat × Nat
  high : Nat × Nat
  closed : Bool

namespace RoundingInterval

/-- The interval of `significand * 2 ^ exponent`. Its lower half is only half as wide where the
number below lies in the next binade. -/
def of (significand : Nat) (exponent : Int) : RoundingInterval :=
  let narrow := significand = Nat.pow 2 52 ∧ Binary64.leastExponent < exponent
  { low := powerRatio 2 (4 * significand - if narrow then 1 else 2) (exponent - 2)
    high := powerRatio 2 (4 * significand + 2) (exponent - 2)
    closed := significand % 2 = 0 }

def contains (i : RoundingInterval) (r : Nat × Nat) : Bool :=
  if i.closed then !ratioLt r i.low && !ratioLt i.high r
  else ratioLt i.low r && ratioLt r i.high

end RoundingInterval

namespace Decimal

/-- The hit on the grid of step `10 ^ scale`, if one of the two neighbours of `value` is in the
interval. -/
def onGrid? (value : Nat × Nat) (interval : RoundingInterval) (scale : Int) : Option Decimal :=
  let step := powerRatio 10 1 scale
  let below := value.1 * step.2 / (value.2 * step.1)
  let belowHits := below ≠ 0 && interval.contains (powerRatio 10 below scale)
  let aboveHits := interval.contains (powerRatio 10 (below + 1) scale)
  match belowHits, aboveHits with
  | false, false => none
  | true, false => some ⟨below, scale⟩
  | false, true => some ⟨below + 1, scale⟩
  | true, true =>
    let middle := powerRatio 10 (2 * below + 1) scale
    let twice := (2 * value.1, value.2)
    if ratioLt twice middle then some ⟨below, scale⟩
    else if ratioLt middle twice then some ⟨below + 1, scale⟩
    else some ⟨if below % 2 = 0 then below else below + 1, scale⟩

/-- The power of ten of the leading digit of a positive ratio within the range of the format. -/
def leadingPower (value : Nat × Nat) : Int :=
  ((Nat.toDigits 10 (value.1 * Nat.pow 10 400 / value.2)).length : Int) - 1 - 400

/-- The shortest decimal that reads back as `significand * 2 ^ exponent`, which is not zero. -/
def shortest (significand : Nat) (exponent : Int) : Decimal :=
  let value := powerRatio 2 significand exponent
  let interval := RoundingInterval.of significand exponent
  let top := leadingPower value
  let hit := (List.range 17).findSome? fun n : Nat => onGrid? value interval (top - (n : Int))
  trim 400 (hit.getD ⟨0, 0⟩)

end Decimal

/-- How a decimal is laid out: the leading digit's power of ten from `positionalFrom` up to, but
without, `positionalBelow` is written positionally, any other with an exponent of at least
`exponentDigits` digits. A whole number written positionally ends in `.0`. -/
structure DecimalLayout where
  positionalFrom : Int
  positionalBelow : Int
  exponentDigits : Nat

namespace DecimalLayout

private def zeros (n : Nat) : List Char := List.replicate n '0'

/-- The exponent's sign and digits. -/
def exponentText (layout : DecimalLayout) (power : Int) : List Char :=
  let digits := Nat.toDigits 10 power.natAbs
  (if power < 0 then '-' else '+') :: (zeros (layout.exponentDigits - digits.length) ++ digits)

/-- The text of a decimal without sign. -/
def render (layout : DecimalLayout) (d : Decimal) : List Char :=
  let digits := Nat.toDigits 10 d.digits
  let power : Int := digits.length - 1 + d.scale
  if layout.positionalFrom ≤ power ∧ power < layout.positionalBelow then
    if power < 0 then '0' :: '.' :: (zeros (power.natAbs - 1) ++ digits)
    else
      let whole := power.toNat + 1
      let fraction := digits.drop whole
      digits.take whole ++ zeros (whole - digits.length) ++
        '.' :: (if fraction.isEmpty then ['0'] else fraction)
  else
    let fraction := digits.drop 1
    digits.take 1 ++ (if fraction.isEmpty then [] else '.' :: fraction) ++
      'e' :: layout.exponentText power

end DecimalLayout

end ApiTypings
