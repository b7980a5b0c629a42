import ApiTypings.Json.Basic
import ApiTypings.Json.Display

/-!
JSON text, on one line without spaces or spread over lines with an indentation.

Only the quote, the backslash and the control characters below the space are escaped; every other
character is written as it is.
-/

namespace ApiTypings.Json

/-- The style of numbers in JSON text, which has words for what is not finite. -/
def printStyle : NumberStyle := ⟨decimalLayout, "NaN", "Infinity"⟩

/-- One character of a JSON text literal. -/
def literalChar (c : Char) : List Char :=
  if c = '"' ∨ c = '\\' then ['\\', c]
  else if c = '\n' then ['\\', 'n']
  else if c = '\r' then ['\\', 'r']
  else if c = '\t' then ['\\', 't']
  else if c = '\x08' then ['\\', 'b']
  else if c = '\x0c' then ['\\', 'f']
  else if c.toNat < 0x20 then '\\' :: 'u' :: Text.hexDigits 4 c.toNat
  else [c]

/-- A text as a JSON literal. -/
def literal (s : String) : String :=
  String.ofList ('"' :: s.toList.flatMap literalChar ++ ['"'])

mutual

/-- A value on one line, without spaces. -/
def compact : Json → String
  | .null => "null"
  | .bool b => if b then "true" else "false"
  | .int n => toString n
  | .float x => x.render printStyle
  | .str s => literal s
  | .arr items => "[" ++ Text.join "," (compactItems items) ++ "]"
  | .obj fields => "\x7b" ++ Text.join "," (compactFields fields) ++ "\x7d"

def compactItems : List Json → List String
  | [] => []
  | v :: rest => compact v :: compactItems rest

def compactFields : List (String × Json) → List String
  | [] => []
  | (k, v) :: rest => (literal k ++ ":" ++ compact v) :: compactFields rest

end

/-- The line break and indentation in front of an element at a depth. -/
def lineStart (step depth : Nat) : String :=
  String.ofList ('\n' :: List.replicate (step * depth) ' ')

/-- A bracketed sequence with one element a line, or the bare brackets if it is empty. -/
def spread (step depth : Nat) (left right : String) (elements : List String) : String :=
  if elements.isEmpty then left ++ right
  else
    left ++ lineStart step (depth + 1) ++
      Text.join ("," ++ lineStart step (depth + 1)) elements ++ lineStart step depth ++ right

mutual

/-- A value spread over lines, each level indented by `step` more spaces. -/
def indented (step depth : Nat) : Json → String
  | .arr items => spread step depth "[" "]" (indentedItems step (depth + 1) items)
  | .obj fields => spread step depth "\x7b" "\x7d" (indentedFields step (depth + 1) fields)
  | v => compact v

def indentedItems (step depth : Nat) : List Json → List String
  | [] => []
  | v :: rest => indented step depth v :: indentedItems step depth rest

def indentedFields (step depth : Nat) : List (String × Json) → List String
  | [] => []
  | (k, v) :: rest =>
    (literal k ++ ": " ++ indented step depth v) :: indentedFields step depth rest

end

end ApiTypings.Json
