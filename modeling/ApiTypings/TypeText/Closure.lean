import ApiTypings.Json.Display
import ApiTypings.Text.Split

/-!
Type expressions in the dialect of closure annotations.

An expression is written as its names, alternatives joined by a bar. A dictionary of a dotted type
is then replaced by the name of that type's dictionary: on each line, the text from the first
`Dictionary<` up to the last `>` keeps what is between the two, with the last of its dots
qualifying the name that follows.
-/

namespace ApiTypings.TypeText.Closure

mutual

/-- The names of an expression, as they are. -/
def plain : Json → String
  | .str s => s
  | .arr items => Text.join "|" (plainItems items)
  | .obj fields =>
    match plainWrapped fields with
    | some text => text
    | none => Text.join "|" (plainFields fields)
  | .null => Json.inspect .null
  | .bool b => Json.inspect (.bool b)
  | .int n => Json.inspect (.int n)
  | .float x => Json.inspect (.float x)

def plainItems : List Json → List String
  | [] => []
  | v :: rest => plain v :: plainItems rest

/-- The names of the expression that an object wraps, if it wraps one. -/
def plainWrapped : List (String × Json) → Option String
  | [] => none
  | (key, v) :: rest => if key = "type" then some (plain v) else plainWrapped rest

def plainFields : List (String × Json) → List String
  | [] => []
  | (_, v) :: rest => plain v :: plainFields rest

end

/-- What stands before and after the first occurrence of a text. -/
def splitFirst? (part : List Char) : List Char → Option (List Char × List Char)
  | [] => if part.isEmpty then some ([], []) else none
  | c :: rest =>
    if part.isPrefixOf (c :: rest) then some ([], (c :: rest).drop part.length)
    else (splitFirst? part rest).map fun r => (c :: r.1, r.2)

/-- What stands before and after the last occurrence of a character. -/
def splitLast? (mark : Char) : List Char → Option (List Char × List Char)
  | [] => none
  | c :: rest =>
    match splitLast? mark rest with
    | some r => some (c :: r.1, r.2)
    | none => if c = mark then some ([], rest) else none

/-- What marks the dictionary of a type, between the type's container and its own name. -/
def dictionaryMark : List Char := "._Dictionary_".toList

/-- One line with its dictionary of a dotted type qualified. -/
def qualifyLine (line : List Char) : List Char :=
  match splitFirst? "Dictionary<".toList line with
  | none => line
  | some (before, rest) =>
    match splitLast? '>' rest with
    | none => line
    | some (inner, after) =>
      match splitLast? '.' inner with
      | none => line
      | some (container, name) => before ++ container ++ dictionaryMark ++ name ++ after

/-- A text with each line qualified. -/
def qualify (s : String) : String :=
  Text.join "\n" ((s.toList.splitOn '\n').map fun line => String.ofList (qualifyLine line))

/-- The body of an annotation: nothing if there is no expression, else its text, marked as variadic
in front and as optional at the end. -/
def annotation (expr : Json) (optional repeatable : Bool) : String :=
  if expr.truthy then
    (if repeatable then "..." else "") ++ qualify (plain expr) ++ (if optional then "=" else "")
  else ""

end ApiTypings.TypeText.Closure
