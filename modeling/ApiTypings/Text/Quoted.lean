import ApiTypings.Unicode.CharClass

/-!
Quoted texts, as they appear inside the text form of a list or an object.

A text stands between single quotes, or between double quotes if it holds a single quote and no
double one. The quote in use and the backslash are escaped, line breaks and tabs have a letter, and
any other character that would not show is written by its code point. In a text that is quoted for
ASCII, so is every other character beyond ASCII.
-/

namespace ApiTypings.Text

/-- The hexadecimal digits of a code point, filled up with zeros. -/
def hexDigits (width n : Nat) : List Char :=
  let digits := Nat.toDigits 16 n
  List.replicate (width - digits.length) '0' ++ digits

/-- A character by its code point, in the shortest of the three forms that holds it. -/
def codePointEscape (c : Char) : List Char :=
  let n := c.toNat
  if n ≤ 0xFF then '\\' :: 'x' :: hexDigits 2 n
  else if n ≤ 0xFFFF then '\\' :: 'u' :: hexDigits 4 n
  else '\\' :: 'U' :: hexDigits 8 n

/-- One character of a quoted text. -/
def quotedChar (quote c : Char) : List Char :=
  if c = quote ∨ c = '\\' then ['\\', c]
  else if c = '\n' then ['\\', 'n']
  else if c = '\r' then ['\\', 'r']
  else if c = '\t' then ['\\', 't']
  else if Unicode.isPrintable c then [c]
  else codePointEscape c

/-- The quote that a text is written in. -/
def quoteFor (cs : List Char) : Char :=
  if cs.contains '\'' && !cs.contains '"' then '"' else '\''

def quotedChars (cs : List Char) : List Char :=
  let quote := quoteFor cs
  quote :: cs.flatMap (quotedChar quote) ++ [quote]

/-- The quoted form of a text. -/
def quoted (s : String) : String := String.ofList (quotedChars s.toList)

/-- The quoted form of a text with nothing but ASCII in it. -/
def quotedAscii (s : String) : String :=
  String.ofList ((quotedChars s.toList).flatMap fun c =>
    if c.toNat < 0x80 then [c] else codePointEscape c)

end ApiTypings.Text
