/-!
Reading text from bytes.

Bytes are read as UTF-8 without overlong forms, surrogates or code points beyond the last one, and
the first ill-formed sequence is reported by its cause: a byte that starts no sequence, a byte that
continues none, or an end of input within a sequence that was well formed so far. Line ends of all
three customary kinds are read as line feeds.
-/

namespace ApiTypings.Text

/-- The character that stands for what is no character. -/
def replacementChar : Char := '\uFFFD'

/-- Why bytes are not UTF-8. -/
inductive Utf8Error where
  | invalidStart
  | invalidContinuation
  | unexpectedEnd
  deriving DecidableEq, Repr

def Utf8Error.message : Utf8Error → String
  | .invalidStart => "invalid start byte"
  | .invalidContinuation => "invalid continuation byte"
  | .unexpectedEnd => "unexpected end of data"

/-- What the first byte of a sequence asks for: how many bytes follow, the range of the first of
them, and the bits that the byte itself contributes. -/
structure Utf8Lead where
  following : Nat
  low : Nat
  high : Nat
  bits : Nat

/-- The sequence that a byte starts. Narrowed ranges of the second byte keep out overlong forms,
surrogates and what lies beyond the last code point. -/
def utf8Lead? (b : Nat) : Option Utf8Lead :=
  if b < 0x80 then some ⟨0, 0, 0, b⟩
  else if b < 0xC2 then none
  else if b < 0xE0 then some ⟨1, 0x80, 0xBF, b - 0xC0⟩
  else if b < 0xF0 then
    some ⟨2, if b = 0xE0 then 0xA0 else 0x80, if b = 0xED then 0x9F else 0xBF, b - 0xE0⟩
  else if b < 0xF5 then
    some ⟨3, if b = 0xF0 then 0x90 else 0x80, if b = 0xF4 then 0x8F else 0xBF, b - 0xF0⟩
  else none

/-- Reads bytes from the left. `owed` counts the bytes that a started sequence still needs, `low`
and `high` bound the next of them, `bits` holds the code point so far, and `done` the characters
read, the last one first. -/
def decodeFrom (owed low high bits : Nat) (done : List Char) :
    List UInt8 → Except Utf8Error (List Char)
  | [] => if owed = 0 then .ok done.reverse else .error .unexpectedEnd
  | b :: rest =>
    let n := b.toNat
    match owed with
    | 0 =>
      match utf8Lead? n with
      | none => .error .invalidStart
      | some ⟨0, _, _, bits⟩ => decodeFrom 0 0 0 0 (Char.ofNat bits :: done) rest
      | some ⟨k + 1, low, high, bits⟩ => decodeFrom (k + 1) low high bits done rest
    | k + 1 =>
      if low ≤ n ∧ n ≤ high then
        let bits := bits * 64 + (n - 0x80)
        match k with
        | 0 => decodeFrom 0 0 0 0 (Char.ofNat bits :: done) rest
        | k + 1 => decodeFrom (k + 1) 0x80 0xBF bits done rest
      else .error .invalidContinuation

/-- The characters of UTF-8 bytes, or the cause of the first error. -/
def decodeUtf8 (bytes : List UInt8) : Except Utf8Error (List Char) := decodeFrom 0 0 0 0 [] bytes

/-- Each line end as a single line feed. `done` holds the characters read, the last one first. -/
def unifyLineEnds (done : List Char) : List Char → List Char
  | '\r' :: '\n' :: rest => unifyLineEnds ('\n' :: done) rest
  | '\r' :: rest => unifyLineEnds ('\n' :: done) rest
  | c :: rest => unifyLineEnds (c :: done) rest
  | [] => done.reverse

end ApiTypings.Text
