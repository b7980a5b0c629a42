import ApiTypings.Json.Basic
import ApiTypings.Text.Split

/-!
Points in time and the way they are written.
-/

namespace ApiTypings.Logging

/-- A point in time, to the millisecond. -/
structure Time where
  year : Nat
  month : Nat
  day : Nat
  hour : Nat
  minute : Nat
  second : Nat
  millisecond : Nat
  deriving DecidableEq, Repr, Inhabited

namespace Time

/-- The decimal digits of a number, with zeros in front. -/
def digits (width n : Nat) : List Char :=
  let ds := Nat.toDigits 10 n
  List.replicate (width - ds.length) '0' ++ ds

/-- A time as a layout says: a percent sign and a letter stand for one of the numbers or for a blank
character, and every other character for itself. -/
def write (t : Time) : List Char → List Char
  | '%' :: 'Y' :: rest => digits 4 t.year ++ write t rest
  | '%' :: 'C' :: rest => digits 2 (t.year / 100) ++ write t rest
  | '%' :: 'y' :: rest => digits 2 (t.year % 100) ++ write t rest
  | '%' :: 'm' :: rest => digits 2 t.month ++ write t rest
  | '%' :: 'd' :: rest => digits 2 t.day ++ write t rest
  | '%' :: 'H' :: rest => digits 2 t.hour ++ write t rest
  | '%' :: 'M' :: rest => digits 2 t.minute ++ write t rest
  | '%' :: 'S' :: rest => digits 2 t.second ++ write t rest
  | '%' :: 'n' :: rest => '\n' :: write t rest
  | '%' :: 't' :: rest => '\t' :: write t rest
  | '%' :: '%' :: rest => '%' :: write t rest
  | c :: rest => c :: write t rest
  | [] => []

end Time

/-- The layout of times as it is set. A layout that counts as absent stands for the standard one with
milliseconds, and one that is no text cannot be followed. -/
structure TimeLayout where
  setting : Json
  deriving Repr

namespace TimeLayout

/-- How times are written if nothing else is said. -/
def standardText : String := "%Y-%m-%d %H:%M:%S"

def standard : TimeLayout := ⟨.str standardText⟩

/-- The layout of times for which none is set. -/
def withMilliseconds : TimeLayout := ⟨.null⟩

/-- A time in a layout. -/
def write (layout : TimeLayout) (t : Time) : Option (List Char) :=
  if layout.setting.truthy then layout.setting.text?.map fun s => t.write s.toList
  else some (t.write standardText.toList ++ ',' :: Time.digits 3 t.millisecond)

end TimeLayout

end ApiTypings.Logging
