import ApiTypings.Api.Name
import ApiTypings.Text.Sorted
import ApiTypings.Unicode.CharClass

/-!
Names in declarations.

A member's name is written as it is where it is an identifier, and as a single-quoted literal where
the language allows a literal. A parameter cannot be quoted, so a reserved word gets a suffix.

Names of members can be values of any kind. Asking whether such a name is an identifier is a fault
if it is no text, and comparing it with other names is a fault if it is a list or an object.
-/

namespace ApiTypings.Declaration

/-- The words that cannot be used as identifiers. -/
def reservedWords : List String :=
  ["break", "case", "catch", "class", "const", "continue", "debugger", "default", "delete", "do",
   "else", "enum", "export", "extends", "false", "finally", "for", "function", "if", "implements",
   "import", "in", "instanceof", "interface", "let", "new", "null", "package", "private",
   "protected", "public", "return", "static", "super", "switch", "this", "throw", "true", "try",
   "typeof", "var", "void", "while", "with", "yield"]

def isReserved (name : String) : Bool := reservedWords.contains name

def isIdentifierStart (c : Char) : Bool := c == '_' || c == '$' || c.isAlpha

def isIdentifierChar (c : Char) : Bool := c == '$' || Unicode.isWordChar c

/-- Whether characters form an identifier, or one followed by a line feed. -/
def isIdentifierLike : List Char → Bool
  | [] => false
  | c :: rest =>
    let rest := rest.dropWhile isIdentifierChar
    isIdentifierStart c && (rest.isEmpty || rest == ['\n'])

/-- A name that is matched against a pattern has to be text. -/
def matchable : Json → Except Fault String
  | .str s => .ok s
  | _ => .error .notJoinable

/-- Whether a name can be declared: an identifier that is not reserved. -/
def isIdentifier (name : Json) : Except Fault Bool :=
  (matchable name).map fun s => isIdentifierLike s.toList && !isReserved s

/-! ### Keys -/

/-- A character within single quotes. -/
def quotedKeyChar (c : Char) : List Char := if c = '\\' ∨ c = '\'' then ['\\', c] else [c]

/-- A name as a single-quoted literal. -/
def quotedKeyText (name : String) : String :=
  String.ofList ('\'' :: name.toList.flatMap quotedKeyChar ++ ['\''])

/-- A name as a literal; it has to be text. -/
def quotedKey : Json → Except Fault String
  | .str s => .ok (quotedKeyText s)
  | _ => .error .notText

/-- The key of a property: its name if it is an identifier, reserved or not, else a literal. -/
def memberKeyText (name : String) : String :=
  if isIdentifierLike name.toList then name else quotedKeyText name

def memberKey (name : Json) : Except Fault String := (matchable name).map memberKeyText

/-! ### Parameters -/

/-- The name that a parameter is declared by. -/
def parameterName (name : Json) : Except Fault Json :=
  name.comparable.map fun _ =>
    match name with
    | .str s => if isReserved s then .str (s ++ "_") else name
    | _ => name

/-! ### Excluded names -/

/-- One line for each of the excluded names, in order, followed by a blank line. -/
def exclusionLines (pad : String) (names : List String) (keyword : String) : List String :=
  if names.isEmpty then []
  else
    (Text.sortDistinct names).map (fun name => pad ++ keyword ++ name ++ ": never;") ++ [""]

end ApiTypings.Declaration
