import ApiTypings.Json.Basic
import ApiTypings.Text.Utf8

/-!
Reading JSON text.

The grammar is the standard one with the words `NaN`, `Infinity` and `-Infinity` added. A text that
does not follow it is refused at the first position where no value can be continued, and the
failure carries the text from that position on, which is all that is needed to name the line. Two
limits end the reading of a text that may well follow the grammar: values are nested only so deep,
and an integer has only so many digits.

Every reading function takes a bound on the number of steps; a step consumes at least one
character, so the bound set by `read` is never reached.
-/

namespace ApiTypings.Json

/-- Why a text is not JSON. -/
inductive ReadCause where
  | byteOrderMark
  | expectedValue
  | expectedKey
  | expectedColon
  | expectedComma
  | unterminatedText
  | controlCharacter
  | invalidEscape
  | invalidCodePoint
  | extraData
  | tooDeep
  | tooManyDigits (count : Nat)
  deriving DecidableEq, Repr

def ReadCause.message : ReadCause → String
  | .byteOrderMark => "Unexpected UTF-8 BOM (decode using utf-8-sig)"
  | .expectedValue => "Expecting value"
  | .expectedKey => "Expecting property name enclosed in double quotes"
  | .expectedColon => "Expecting ':' delimiter"
  | .expectedComma => "Expecting ',' delimiter"
  | .unterminatedText => "Unterminated string starting at"
  | .controlCharacter => "Invalid control character at"
  | .invalidEscape => "Invalid \\escape"
  | .invalidCodePoint => "Invalid \\uXXXX escape"
  | .extraData => "Extra data"
  | .tooDeep => "Nested too deep"
  | .tooManyDigits count => "Integer of " ++ toString count ++ " digits"

/-- A refusal: the cause, and the text from the position of the error on. -/
structure ReadFailure where
  cause : ReadCause
  rest : List Char

/-- A refusal as it is reported, with the number of the line it is on. -/
structure ReadError where
  cause : ReadCause
  line : Nat
  deriving DecidableEq, Repr

/-- The result of reading one item: the item and the text after it. -/
abbrev Reading (α : Type) := Except ReadFailure (α × List Char)

def refuse {α : Type} (cause : ReadCause) (rest : List Char) : Reading α := .error ⟨cause, rest⟩

def isSpace (c : Char) : Bool := c == ' ' || c == '\t' || c == '\n' || c == '\r'

def skipSpace (s : List Char) : List Char := s.dropWhile isSpace

/-! ### Text literals -/

/-- The number that four hexadecimal digits stand for. -/
def hexValue? (cs : List Char) : Option Nat :=
  cs.foldl (fun acc c => acc.bind fun n => (digit? c).map (n * 16 + ·)) (some 0)
where
  digit? (c : Char) : Option Nat :=
    if c.isDigit then some (c.toNat - '0'.toNat)
    else if 'a' ≤ c ∧ c ≤ 'f' then some (c.toNat - 'a'.toNat + 10)
    else if 'A' ≤ c ∧ c ≤ 'F' then some (c.toNat - 'A'.toNat + 10)
    else none

/-- The character after a backslash, as what it stands for. -/
def simpleEscape? (c : Char) : Option Char :=
  if c = '"' ∨ c = '\\' ∨ c = '/' then some c
  else if c = 'b' then some '\x08'
  else if c = 'f' then some '\x0c'
  else if c = 'n' then some '\n'
  else if c = 'r' then some '\r'
  else if c = 't' then some '\t'
  else none

def isHighSurrogate (n : Nat) : Bool := 0xD800 ≤ n && n ≤ 0xDBFF

def isLowSurrogate (n : Nat) : Bool := 0xDC00 ≤ n && n ≤ 0xDFFF

def isSurrogate (n : Nat) : Bool := isHighSurrogate n || isLowSurrogate n

/-- A code unit as a character. A surrogate without its partner is none, and the replacement
character stands for it; `spellsHalf` tells whether a text has one. -/
def unitChar (n : Nat) : Char :=
  if isSurrogate n then Text.replacementChar else Char.ofNat n

/-- The code point escape whose digits are the first four characters, followed by at least one
more; two escapes that form a surrogate pair are one character. -/
def codePoint (s : List Char) : Reading Char :=
  if s.length ≤ 4 then refuse .invalidCodePoint s
  else
    match hexValue? (s.take 4) with
    | none => refuse .invalidCodePoint s
    | some high =>
      let rest := s.drop 4
      if isHighSurrogate high && 6 < rest.length && rest.take 2 == ['\\', 'u'] then
        match hexValue? ((rest.drop 2).take 4) with
        | none => refuse .invalidCodePoint s
        | some low =>
          if isLowSurrogate low then
            .ok (Char.ofNat (0x10000 + (high - 0xD800) * 0x400 + (low - 0xDC00)), rest.drop 6)
          else .ok (unitChar high, rest)
      else .ok (unitChar high, rest)

/-- The characters up to the closing quote. `start` is the text from the opening quote on, and
`done` holds the characters read, the last one first. -/
def literalFrom (start : List Char) : Nat → List Char → List Char → Reading String
  | 0, _, _ => refuse .unterminatedText start
  | fuel + 1, done, s =>
    match s with
    | [] => refuse .unterminatedText start
    | '"' :: rest => .ok (String.ofList done.reverse, rest)
    | ['\\'] => refuse .unterminatedText start
    | '\\' :: 'u' :: rest =>
      match codePoint rest with
      | .error e => .error e
      | .ok (c, rest) => literalFrom start fuel (c :: done) rest
    | '\\' :: c :: rest =>
      match simpleEscape? c with
      | none => refuse .invalidEscape s
      | some c => literalFrom start fuel (c :: done) rest
    | c :: rest =>
      if c.toNat < 0x20 then refuse .controlCharacter s
      else literalFrom start fuel (c :: done) rest

/-- A text literal; `s` starts with its opening quote. -/
def readLiteral (s : List Char) : Reading String := literalFrom s (s.length + 1) [] (s.drop 1)

/-! ### Halves of surrogate pairs -/

/-- Whether the next characters escape the second half of a surrogate pair. -/
def startsLow (s : List Char) : Bool :=
  s.take 2 == ['\\', 'u'] && (hexValue? ((s.drop 2).take 4)).any isLowSurrogate

/-- Whether half of a surrogate pair is escaped on its own; `paired` tells that the first escape is
the second half of a pair. -/
def spellsHalfFrom (paired : Bool) : List Char → Bool
  | [] => false
  | '\\' :: 'u' :: rest =>
    let unit := (hexValue? (rest.take 4)).getD 0
    let opens := isHighSurrogate unit && startsLow (rest.drop 4)
    (isSurrogate unit && !opens && !paired) || spellsHalfFrom opens rest
  | '\\' :: _ :: rest => spellsHalfFrom false rest
  | _ :: rest => spellsHalfFrom paired rest

/-- Whether a text in JSON syntax escapes half of a surrogate pair on its own. -/
def spellsHalf (s : List Char) : Bool := spellsHalfFrom false s

/-! ### Numbers -/

/-- The number that decimal digits stand for. -/
def digitsValue (cs : List Char) : Nat :=
  cs.foldl (fun n c => n * 10 + (c.toNat - '0'.toNat)) 0

/-- The digits after a decimal point, if at least one follows it. -/
def fractionDigits (s : List Char) : List Char × List Char :=
  match s with
  | '.' :: c :: rest => if c.isDigit then (c :: rest).span Char.isDigit else ([], s)
  | _ => ([], s)

/-- The exponent, if the mark is followed by at least one digit. -/
def exponent? (s : List Char) : Option (Int × List Char) :=
  match s with
  | mark :: rest =>
    if mark = 'e' ∨ mark = 'E' then
      let (negative, rest) :=
        match rest with
        | '-' :: rest => (true, rest)
        | '+' :: rest => (false, rest)
        | _ => (false, rest)
      let (digits, rest) := rest.span Char.isDigit
      if digits.isEmpty then none
      else
        let power : Int := digitsValue digits
        some (if negative then -power else power, rest)
    else none
  | [] => none

/-- The greatest number of digits that an integer is read with. -/
def mostDigits : Nat := 4300

/-- An unsigned number: one zero, or digits that do not start with one, then an optional fraction
and an optional exponent. A number with neither is an integer. -/
def unsigned (negative : Bool) (s : List Char) : Reading Json :=
  let (whole, rest) :=
    match s with
    | '0' :: rest => (['0'], rest)
    | _ => s.span Char.isDigit
  if whole.isEmpty then refuse .expectedValue s
  else
    let (fraction, rest) := fractionDigits rest
    match exponent? rest, fraction.isEmpty with
    | none, true =>
      if mostDigits < whole.length then refuse (.tooManyDigits whole.length) s
      else
        let n : Int := digitsValue whole
        .ok (.int (if negative then -n else n), rest)
    | power?, _ =>
      let (power, rest) := power?.getD (0, rest)
      let number := Binary64.ofDecimal negative (digitsValue (whole ++ fraction))
        (power - (fraction.length : Int))
      .ok (.float number, rest)

/-- A number, which may carry a minus sign. -/
def readNumber : List Char → Reading Json
  | '-' :: rest => unsigned true rest
  | s => unsigned false s

/-! ### Values -/

/-- The values that are written as a word. -/
def wordValues : List (List Char × Json) :=
  [("null".toList, .null), ("true".toList, .bool true), ("false".toList, .bool false),
   ("NaN".toList, .float .nan), ("Infinity".toList, .float (.infinite false)),
   ("-Infinity".toList, .float (.infinite true))]

/-- A value written as a word or a number. -/
def readPlain (s : List Char) : Reading Json :=
  match wordValues.find? (fun w => w.1.isPrefixOf s) with
  | some (word, v) => .ok (v, s.drop word.length)
  | none => readNumber s

mutual

/-- One value, which starts at the first character. `levels` is the number of lists and objects that
may still be opened inside each other. -/
def readValue (levels : Nat) : Nat → List Char → Reading Json
  | 0, s => refuse .expectedValue s
  | fuel + 1, s =>
    match s, levels with
    | '"' :: _, _ => (readLiteral s).map fun r => (.str r.1, r.2)
    | '{' :: _, 0 => refuse .tooDeep s
    | '[' :: _, 0 => refuse .tooDeep s
    | '{' :: rest, levels + 1 =>
      match skipSpace rest with
      | '}' :: rest => .ok (.obj [], rest)
      | rest => readFields levels fuel [] rest
    | '[' :: rest, levels + 1 =>
      match skipSpace rest with
      | ']' :: rest => .ok (.arr [], rest)
      | rest => readItems levels fuel [] rest
    | s, _ => readPlain s

/-- The fields of an object from a key on; `done` holds those read, the last one first. -/
def readFields (levels : Nat) : Nat → List (String × Json) → List Char → Reading Json
  | 0, _, s => refuse .expectedKey s
  | fuel + 1, done, s =>
    match s with
    | '"' :: _ =>
      match readLiteral s with
      | .error e => .error e
      | .ok (key, rest) =>
        match skipSpace rest with
        | ':' :: rest =>
          match readValue levels fuel (skipSpace rest) with
          | .error e => .error e
          | .ok (v, rest) =>
            match skipSpace rest with
            | '}' :: rest => .ok (.obj (Fields.ofList ((key, v) :: done).reverse), rest)
            | ',' :: rest => readFields levels fuel ((key, v) :: done) (skipSpace rest)
            | rest => refuse .expectedComma rest
        | rest => refuse .expectedColon rest
    | s => refuse .expectedKey s

/-- The elements of a list from a value on; `done` holds those read, the last one first. -/
def readItems (levels : Nat) : Nat → List Json → List Char → Reading Json
  | 0, _, s => refuse .expectedValue s
  | fuel + 1, done, s =>
    match readValue levels fuel s with
    | .error e => .error e
    | .ok (v, rest) =>
      match skipSpace rest with
      | ']' :: rest => .ok (.arr (v :: done).reverse, rest)
      | ',' :: rest => readItems levels fuel (v :: done) (skipSpace rest)
      | rest => refuse .expectedComma rest

end

/-- A whole text: one value with nothing but space around it. -/
def readDocument (levels : Nat) (s : List Char) : Except ReadFailure Json :=
  match s with
  | '\uFEFF' :: _ => .error ⟨.byteOrderMark, s⟩
  | _ =>
    match readValue levels (2 * s.length + 2) (skipSpace s) with
    | .error e => .error e
    | .ok (v, rest) =>
      match skipSpace rest with
      | [] => .ok v
      | rest => .error ⟨.extraData, rest⟩

/-- The value that a text stands for if its lists and objects are nested within a number of levels,
or why and on which line it stands for none. -/
def readWithin (levels : Nat) (s : List Char) : Except ReadError Json :=
  (readDocument levels s).mapError fun e => ⟨e.cause, s.count '\n' - e.rest.count '\n' + 1⟩

/-- The number of levels that a text is read with if nothing else is said. -/
def mostLevels : Nat := 990

/-- The value that a text stands for, or why and on which line it stands for none. -/
def read (s : List Char) : Except ReadError Json := readWithin mostLevels s

end ApiTypings.Json
