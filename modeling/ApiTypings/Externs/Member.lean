import ApiTypings.Api.Name
import ApiTypings.Api.Reading
import ApiTypings.Declaration.Name
import ApiTypings.Externs.Annotation
import ApiTypings.Externs.Name
import ApiTypings.TypeText.Closure
import ApiTypings.Unicode.CharClass

/-!
Members in externs.

A property is bound on the prototype of its type, unless its name is in upper case, which makes it
a constant of the type itself. The properties of a prototype that can be written make up the
dictionary of the type. A method is bound on the prototype if the type can be created.
-/

namespace ApiTypings.Externs

/-- What a member's name is appended to. -/
def ownerOf (declName : String) : String := if declName = "" then "var " else declName ++ "."

/-! ### Properties -/

/-- A property: the lines that bind it, and its field in the dictionary if it can be written. -/
structure BoundProperty where
  lines : List String
  writable : Option String

/-- Whether a name is in upper case, as those of constants are. -/
def isUpper (name : String) : Bool := Unicode.upper name == name

def bindProperty (owner : String) (m : Named) : Except Fault BoundProperty := do
  let type := TypeText.Closure.annotation (m.fields.get "type") false false
  let readOnly := (m.fields.get "permission").text? == some "read-only"
  let summary ← freeText (m.fields.get "summary")
  let since ← sinceLine (m.fields.get "since")
  let name ← joinable m.name
  let comment := ["/**", commentLine [summary], since] ++
    (if readOnly then [commentLine ["@readonly"]] else []) ++
    [commentLine ["@type", braced type, name], " */"]
  if isUpper name then pure ⟨comment ++ [owner ++ name ++ ";", ""], none⟩
  else
    pure ⟨comment ++ [owner ++ "prototype." ++ name ++ ";", ""],
      if readOnly then none else some (recordField name type)⟩

/-- The name that a dictionary is derived from: the declared name, or else the document's own. -/
def dictionaryOwner (cls : Fields) (declName : String) : Except Fault String :=
  if declName ≠ "" then .ok declName
  else
    match cls.get? "name" with
    | none => .ok ""
    | some (.str name) => .ok name
    | some _ => .error .notText

/-- The dictionary of a type, if any of its properties can be written. -/
def dictionaryLines (cls : Fields) (declName : String) (writable : List String) :
    Except Fault (List String) :=
  if writable.isEmpty then .ok []
  else
    (dictionaryOwner cls declName).map fun owner =>
      ["/**", recordOpening, Text.join ",\n" writable, recordClosing, " */",
        dictionaryName owner ++ ";", ""]

/-- The text that binds the properties of a document, and the lines of its dictionary. -/
def propertiesText (cls : Fields) (declName : String) : Except Fault (String × List String) := do
  let bound ← (cls.get "properties").members.mapM (bindProperty (ownerOf declName))
  let dictionary ← dictionaryLines cls declName (bound.filterMap (·.writable))
  pure (Text.join "\n" (bound.flatMap (·.lines)), dictionary)

/-! ### Methods -/

/-- The line of a parameter, and the name that it is declared by. -/
def parameterLine (m : Named) : Except Fault (String × String) := do
  let name ← Declaration.parameterName m.name
  let type := TypeText.Closure.annotation (m.fields.get "type")
    (m.fields.get "optional").truthy (m.fields.get "repeatable").truthy
  let summary ← freeText (m.fields.get "summary")
  let name ← joinable name
  pure (commentLine ["@param", braced type, name, summary], name)

/-- The type of what is returned first, if anything is returned. -/
def firstReturn? : Json → Option Json
  | .str s => some (.str s)
  | .obj fields => present (Fields.get fields "type")
  | .arr (.obj fields :: _) => present (Fields.get fields "type")
  | .arr (v :: _) => present v
  | _ => none
where
  present : Json → Option Json
    | .null => none
    | v => some v

def returnLines (returns : Json) : List String :=
  match firstReturn? returns with
  | some type => [commentLine ["@return", braced (TypeText.Closure.annotation type false false)]]
  | none => []

/-- The lines that bind a method. -/
def bindMethod (owner : String) (m : Named) : Except Fault (List String) := do
  let summary ← freeText (m.fields.get "summary")
  let since ← sinceLine (m.fields.get "since")
  let name ← joinable m.name
  let parameters ← (m.fields.get "parameters").members.mapM parameterLine
  pure (["/**", commentLine [summary], since] ++ parameters.map (·.1) ++
    returnLines (m.fields.get "returns") ++
    [" */", owner ++ name ++ " = function(" ++ Text.join ", " (parameters.map (·.2)) ++
      ") \x7b\x7d;", ""])

/-- The text that binds the methods of a document. -/
def methodsText (cls : Fields) (declName : String) : Except Fault String := do
  let owner := ownerOf declName ++ (if (cls.get "__creatable").truthy then "prototype." else "")
  let lines ← (cls.get "methods").members.mapM (bindMethod owner)
  pure (Text.join "\n" lines.flatten)

end ApiTypings.Externs
