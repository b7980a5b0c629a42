import ApiTypings.Number.Binary64

/-!
Natural numbers as decimals with a chosen number of places.

A decimal has its places behind the point, or it is written by its leading digits and a power of
ten. Digits that are left out are rounded to the nearest, a half going to the even neighbour.
-/

namespace ApiTypings.Places

/-- The first `count` digits of a number, and the power of ten of the first one. -/
def leading (count n : Nat) : List Char × Nat :=
  let digits := Nat.toDigits 10 n
  let missing := count - digits.length
  let surplus := digits.length - count
  if surplus = 0 then (digits ++ List.replicate missing '0', digits.length - 1)
  else
    let rounded := Nat.toDigits 10 (Binary64.roundRatio n (Nat.pow 10 surplus))
    (rounded.take count, rounded.length + surplus - 1)

/-- Digits before and behind a point, which is left out if nothing follows it, unless it is to be
kept. -/
def pointed (keepPoint : Bool) (whole places : List Char) : List Char :=
  if places.isEmpty && !keepPoint then whole else whole ++ '.' :: places

/-- A power of ten, with at least two digits. -/
def power (upper : Bool) (n : Nat) : List Char :=
  let digits := Nat.toDigits 10 n
  (if upper then 'E' else 'e') :: '+' :: List.replicate (2 - digits.length) '0' ++ digits

/-- A number with a number of places behind the point. -/
def fixed (keepPoint : Bool) (places n : Nat) : List Char :=
  pointed keepPoint (Nat.toDigits 10 n) (List.replicate places '0')

/-- A number with one digit before the point, a number of places behind it, and a power of ten. -/
def scientific (keepPoint upper : Bool) (places n : Nat) : List Char :=
  let (digits, exponent) := leading (places + 1) n
  pointed keepPoint (digits.take 1) (digits.drop 1) ++ power upper exponent

/-- The digits without the zeros at the end. -/
def trimZeros (digits : List Char) : List Char := (digits.reverse.dropWhile (· = '0')).reverse

/-- A number with a number of leading digits, written with a power of ten only if it has more digits
than that before the point. Zeros at the end of the places are left out unless all is to be kept. -/
def general (keepAll upper : Bool) (count n : Nat) : List Char :=
  let count := max count 1
  let (digits, exponent) := leading count n
  let places := fun (cs : List Char) => if keepAll then cs else trimZeros cs
  if exponent < count then
    pointed keepAll (digits.take (exponent + 1)) (places (digits.drop (exponent + 1)))
  else pointed keepAll (digits.take 1) (places (digits.drop 1)) ++ power upper exponent

end ApiTypings.Places
