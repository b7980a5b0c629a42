import ApiTypings.Fault
import ApiTypings.Logging.Slot
import ApiTypings.Unicode.CharClass

/-!
The layout of log lines.

A template is a text with slots, each behind a percent sign. A template has to have at least one slot
to be of any use. A slot that names no known field or breaks off is found out only when a line is
laid out, and then there is no line.
-/

namespace ApiTypings.Logging

/-- A part of a template. -/
inductive Part where
  | text (c : Char)
  | slot (field : RecordField) (fit : Fit) (conversion : Conversion)
  /-- A slot that cannot be filled. -/
  | broken
  deriving DecidableEq, Repr

/-- The layout of log lines. -/
abbrev Template := List Part

namespace Template

/-- The number written in front of a text, and what follows it. -/
def leadingNumber (cs : List Char) : Option Nat × List Char :=
  let ds := cs.takeWhile Char.isDigit
  ((String.ofList ds).toNat?, cs.dropWhile Char.isDigit)

/-- Whether a character is one of the signs that say how a slot is fitted in. -/
def isFlag (c : Char) : Bool := c = '-' || c = '0' || c = '+' || c = ' ' || c = '#'

/-- How a slot is fitted in, and what follows. A letter for the size of a number says nothing. -/
def fitOf (cs : List Char) : Fit × List Char :=
  let flags := cs.takeWhile isFlag
  let (width, rest) := leadingNumber (cs.dropWhile isFlag)
  let (limit, rest) := match rest with
    | '.' :: rest =>
      let (n, rest) := leadingNumber rest
      (some (n.getD 0), rest)
    | rest => (none, rest)
  let rest := match rest with
    | c :: more => if c = 'h' ∨ c = 'l' ∨ c = 'L' then more else c :: more
    | [] => []
  (⟨flags.contains '-', flags.contains '0', flags.contains '+', flags.contains ' ',
    flags.contains '#', width.getD 0, limit⟩, rest)

/-- The slot of a field, and what follows it. -/
def slotOf (field : RecordField) (cs : List Char) : Part × List Char :=
  let (fit, rest) := fitOf cs
  match rest with
  | [] => (.broken, [])
  | letter :: rest =>
    match Conversion.ofChar? letter with
    | some conversion => (.slot field fit conversion, rest)
    | none => (.broken, rest)

/-- The part behind a percent sign, and what follows it. A second percent sign stands for itself, and
anything else has to be a slot with the name of its field in front. -/
def partBehind (cs : List Char) : Part × List Char :=
  match cs with
  | '%' :: rest => (.text '%', rest)
  | '(' :: inner =>
    match RecordField.ofName? (String.ofList (inner.takeWhile (· ≠ ')'))) with
    | some field => slotOf field ((inner.dropWhile (· ≠ ')')).drop 1)
    | none => (.broken, [])
  | cs => (.broken, cs)

/-- Reads a template. The first argument bounds the number of parts. -/
def readFrom : Nat → List Char → Template
  | 0, _ => []
  | _, [] => []
  | n + 1, '%' :: rest =>
    let (part, rest) := partBehind rest
    part :: readFrom n rest
  | n + 1, c :: rest => .text c :: readFrom n rest

/-- Whether a letter ends a slot. Case is of no account here. -/
def endsSlot (c : Char) : Bool :=
  "diouxefgcrsa%".toList.contains c.toLower || c == 'ı' || c == 'İ' || c == 'ſ'

/-- What follows an asterisk or a run of decimal digits in front of a text, if there is any. -/
def afterMeasure? (cs : List Char) : Option (List Char) :=
  match cs with
  | '*' :: rest => some rest
  | c :: rest =>
    if Unicode.isDecimalDigit c then some (rest.dropWhile Unicode.isDecimalDigit) else none
  | [] => none

/-- Whether a text starts with something that looks like a slot with a field. -/
def startsWithSlot (cs : List Char) : Bool :=
  match cs with
  | '%' :: '(' :: inner =>
    let name := inner.takeWhile Unicode.isWordChar
    match inner.dropWhile Unicode.isWordChar with
    | ')' :: rest =>
      let rest := rest.dropWhile isFlag
      let rest := (afterMeasure? rest).getD rest
      let rest := match rest with
        | '.' :: more => (afterMeasure? more).getD rest
        | rest => rest
      !name.isEmpty && rest.head?.any endsSlot
    | _ => false
  | _ => false

/-- Whether there is something in a text that looks like a slot with a field. -/
def hasSlot : List Char → Bool
  | [] => false
  | c :: rest => startsWithSlot (c :: rest) || hasSlot rest

/-- The template of the message alone. -/
def messageOnly : String := "%(message)s"

/-- The template written in a text. -/
def ofText (s : String) : Except Fault Template :=
  let cs := s.toList
  if hasSlot cs then .ok (readFrom cs.length cs) else .error (.noSlot s)

/-- The template that a setting stands for. One that counts as absent stands for the message
alone. -/
def ofJson (setting : Json) : Except Fault Template :=
  if setting.truthy then
    match setting with
    | .str s => ofText s
    | _ => .error (.wrongKind "text")
  else ofText messageOnly

/-- The text of a part, if it can be filled. -/
def partText (layout : TimeLayout) (r : Record) : Part → Option (List Char)
  | .text c => some [c]
  | .slot field fit conversion => (field.value layout r).bind (fit.write conversion)
  | .broken => none

/-- The log line of a record, if every slot can be filled. -/
def line? (t : Template) (layout : TimeLayout) (r : Record) : Option String :=
  (t.mapM (partText layout r)).map fun parts => String.ofList parts.flatten

end Template

end ApiTypings.Logging
