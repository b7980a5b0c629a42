import ApiTypings.Api.Record
import ApiTypings.Text.Blank
import ApiTypings.Text.Split

/-!
Comments in declarations: deprecation markers and the tombstones of removed members.
-/

namespace ApiTypings.Declaration

/-- Characters with every end of a comment among them broken up. -/
def escapeCommentChars : List Char → List Char
  | '*' :: '/' :: rest => '*' :: '\\' :: '/' :: escapeCommentChars rest
  | c :: rest => c :: escapeCommentChars rest
  | [] => []

/-- Free text that cannot end the comment it stands in. -/
def escapeComment (s : String) : String := String.ofList (escapeCommentChars s.toList)

/-- The marker in front of a deprecated member: its notes as one line of words in a comment. -/
def deprecatedMark : Option Deprecation → String
  | none => ""
  | some d =>
    let notes := Text.join " " (Text.words d.notes)
    "/** " ++ escapeComment (Text.trim ("@deprecated " ++ notes)) ++ " */ "

/-- Notes continued over several lines of a comment. -/
def continueNotes (pad notes : String) : String :=
  Text.join ("\n" ++ pad ++ " * ") (Text.pieces '\n' notes)

/-- What is left of a removed member: a comment, and a declaration that nothing satisfies, which is
commented out if a member of the other kind has the name. -/
def tombstone (pad name : String) (d : Deprecation) (commented : Bool) (keyword : String) :
    String :=
  pad ++ "/*\n" ++ pad ++ " * REMOVED in " ++ d.removed ++ "\n" ++ pad ++ " * " ++
    continueNotes pad d.notes ++ "\n" ++ pad ++ " */\n" ++ pad ++
    (if commented then "// " else "") ++ keyword ++ name ++ ": never;"

end ApiTypings.Declaration
