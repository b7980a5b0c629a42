import ApiTypings.Api.Platform
import ApiTypings.Fault
import ApiTypings.Json.Display

/-!
The lines of annotations.

Annotations are written from the documents of a description as they are, without reading records
first. Free text has to be text, platform versions have to be an object, and what is joined into a
line has to be text; anything else is a fault.
-/

namespace ApiTypings.Externs

/-- The start of every line of a comment but the first. -/
def lineMark : String := " *"

/-- A line of a comment from its parts. -/
def commentLine (parts : List String) : String := Text.join " " (lineMark :: parts)

/-- A value that is joined with text has to be text. -/
def joinable : Json → Except Fault String
  | .str s => .ok s
  | _ => .error .notJoinable

/-- Free text, continued over several lines of a comment; a value that counts as absent is empty. -/
def freeText (v : Json) : Except Fault String :=
  if v.truthy then
    match v with
    | .str s => .ok (Text.join "\n * " (Text.pieces '\n' s))
    | _ => .error .notText
  else .ok ""

/-- The line of platforms and versions, empty if there is none. -/
def sinceLine : Json → Except Fault String
  | .null => .ok ""
  | .obj fields =>
    let entries := fields.map fun f => f.2.display ++ " (" ++ platformName f.1 ++ ")"
    .ok (commentLine ["@since", Text.join ", " entries])
  | _ => .error .notAnObject

/-- A text in braces, as types stand in annotations. -/
def braced (s : String) : String := "\x7b" ++ s ++ "\x7d"

/-- A field of a record type; alternatives are put in brackets. -/
def recordField (name type : String) : String :=
  let type := if type.toList.contains '|' then "(" ++ type ++ ")" else type
  commentLine [" ", name ++ ":", type]

/-- The lines that open and close a record type. -/
def recordOpening : String := commentLine ["@typedef", "\x7b\x7b"]

def recordClosing : String := commentLine ["\x7d\x7d"]

end ApiTypings.Externs
