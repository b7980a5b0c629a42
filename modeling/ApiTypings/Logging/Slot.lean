import ApiTypings.Logging.Time
import ApiTypings.Number.Places
import ApiTypings.Text.Quoted

/-!
The slots of a log line.

A slot names a field of the record, says how its value is written and may ask for a least width,
filled with blanks on the left or on the right or with zeros, for a greatest length or a number of
digits or places, and for a sign. Not every value can be written in every way.
-/

namespace ApiTypings.Logging

/-- What is known of a log record. -/
structure Record where
  level : Int
  name : String
  message : String
  time : Time
  deriving DecidableEq, Repr

/-- The level names that are not made from the level's number. -/
def levelNames : List (Int × String) :=
  [(0, "NOTSET"), (10, "DEBUG"), (20, "INFO"), (30, "WARNING"), (40, "ERROR"), (50, "CRITICAL")]

/-- The name of a level. -/
def levelName (level : Int) : String :=
  (levelNames.lookup level).getD ("Level " ++ toString level)

/-- The value of a field. -/
inductive FieldValue where
  | text (cs : List Char)
  | number (n : Int)
  /-- The field has no value; it reads as a word. -/
  | absent
  deriving DecidableEq, Repr

/-- The fields of a record that a slot can name. -/
inductive RecordField where
  | name
  | levelName
  | levelNumber
  | message
  | time
  | thread
  | process
  /-- A field that no record of ours has a value for. -/
  | unused
  deriving DecidableEq, Repr

namespace RecordField

/-- The fields by the names they have in a template. -/
def ofName? (name : String) : Option RecordField :=
  match name with
  | "name" => some .name
  | "levelname" => some .levelName
  | "levelno" => some .levelNumber
  | "message" => some .message
  | "msg" => some .message
  | "asctime" => some .time
  | "threadName" => some .thread
  | "processName" => some .process
  | "args" => some .unused
  | "exc_info" => some .unused
  | "exc_text" => some .unused
  | "stack_info" => some .unused
  | _ => none

/-- The value of a field, times being written as the layout says. -/
def value (layout : TimeLayout) (r : Record) : RecordField → Option FieldValue
  | .name => some (.text r.name.toList)
  | .levelName => some (.text (Logging.levelName r.level).toList)
  | .levelNumber => some (.number r.level)
  | .message => some (.text r.message.toList)
  | .time => (layout.write r.time).map .text
  | .thread => some (.text "MainThread".toList)
  | .process => some (.text "MainProcess".toList)
  | .unused => some .absent

end RecordField

/-- The ways in which a value is written. -/
inductive Conversion where
  | plain
  | quoted
  | quotedAscii
  | character
  | decimal
  | octal
  | hexadecimal (upper : Bool)
  | fixed
  | scientific (upper : Bool)
  | general (upper : Bool)
  deriving DecidableEq, Repr

/-- The conversion that a letter stands for. -/
def Conversion.ofChar? : Char → Option Conversion
  | 's' => some .plain
  | 'r' => some .quoted
  | 'a' => some .quotedAscii
  | 'c' => some .character
  | 'd' => some .decimal
  | 'i' => some .decimal
  | 'u' => some .decimal
  | 'o' => some .octal
  | 'x' => some (.hexadecimal false)
  | 'X' => some (.hexadecimal true)
  | 'f' => some .fixed
  | 'F' => some .fixed
  | 'e' => some (.scientific false)
  | 'E' => some (.scientific true)
  | 'g' => some (.general false)
  | 'G' => some (.general true)
  | _ => none

/-- How the text of a slot is fitted in. `limit` is a greatest length, a least number of digits or a
number of places, as the conversion has it. -/
structure Fit where
  alignLeft : Bool
  fillZeros : Bool
  showPlus : Bool
  leaveBlank : Bool
  alternate : Bool
  width : Nat
  limit : Option Nat
  deriving DecidableEq, Repr

namespace Fit

/-- Fills a text up to the width. -/
def fill (f : Fit) (cs : List Char) : List Char :=
  let gap := List.replicate (f.width - cs.length) ' '
  if f.alignLeft then cs ++ gap else gap ++ cs

/-- Cuts a text to the greatest length and fills it up. -/
def fitText (f : Fit) (cs : List Char) : List Char :=
  f.fill ((f.limit.map cs.take).getD cs)

/-- The sign in front of a number. -/
def sign (f : Fit) (negative : Bool) : List Char :=
  if negative then ['-'] else if f.showPlus then ['+'] else if f.leaveBlank then [' '] else []

/-- Fills a number up, zeros standing behind its sign and the mark of its base. -/
def fitNumber (f : Fit) (negative : Bool) (mark digits : List Char) : List Char :=
  let front := f.sign negative ++ mark
  let gap := f.width - front.length - digits.length
  if f.fillZeros && !f.alignLeft then front ++ List.replicate gap '0' ++ digits
  else f.fill (front ++ digits)

/-- An integer in a base, with at least as many digits as the limit says. -/
def fitInteger (f : Fit) (base : Nat) (mark : String) (upper : Bool) (n : Int) : List Char :=
  let digits := Nat.toDigits base n.natAbs
  let digits := List.replicate (f.limit.getD 0 - digits.length) '0' ++ digits
  let raised := fun (cs : List Char) => if upper then cs.map Char.toUpper else cs
  f.fitNumber (n < 0) (raised (if f.alternate then mark.toList else [])) (raised digits)

/-- The number of places of a decimal if nothing is said about it. -/
def standardPlaces : Nat := 6

/-- An integer as a floating-point number, unless it is beyond the range of those. -/
def fitDecimal (f : Fit) (write : Nat → Nat → List Char) (n : Int) : Option (List Char) :=
  (Binary64.ofRatio false n.natAbs 1).toInt?.map fun m =>
    f.fitNumber (n < 0) [] (write (f.limit.getD standardPlaces) m.natAbs)

/-- A character by its number, or the only one of a text. -/
def character? : FieldValue → Option Char
  | .text [c] => some c
  | .number n =>
    if h : 0 ≤ n ∧ n.toNat.isValidChar then some (Char.ofNatAux n.toNat h.2) else none
  | _ => none

/-- The text of a slot, if the value can be written in this way. -/
def write (f : Fit) (conversion : Conversion) (v : FieldValue) : Option (List Char) :=
  match conversion, v with
  | .character, v => (character? v).map fun c => f.fill [c]
  | .quoted, .text cs => some (f.fitText (Text.quoted (String.ofList cs)).toList)
  | .quotedAscii, .text cs => some (f.fitText (Text.quotedAscii (String.ofList cs)).toList)
  | .plain, .text cs => some (f.fitText cs)
  | .plain, .number n | .quoted, .number n | .quotedAscii, .number n =>
    some (f.fitText (toString n).toList)
  | .plain, .absent | .quoted, .absent | .quotedAscii, .absent => some (f.fitText "None".toList)
  | .decimal, .number n => some (f.fitInteger 10 "" false n)
  | .octal, .number n => some (f.fitInteger 8 "0o" false n)
  | .hexadecimal upper, .number n => some (f.fitInteger 16 "0x" upper n)
  | .fixed, .number n => f.fitDecimal (Places.fixed f.alternate) n
  | .scientific upper, .number n => f.fitDecimal (Places.scientific f.alternate upper) n
  | .general upper, .number n => f.fitDecimal (Places.general f.alternate upper) n
  | _, _ => none

end Fit

end ApiTypings.Logging
