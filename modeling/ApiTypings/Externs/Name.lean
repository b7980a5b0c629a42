import ApiTypings.Text.Split

/-!
Names in externs.

Externs are flat: every name is bound by its full dotted path, a name of one segment by `var`. The
global scope disappears in front of other names. Two types have names that start with a digit and
are reached by a bracketed key instead.
-/

namespace ApiTypings.Externs

/-- Whether a name has several segments. -/
def isDotted (name : String) : Bool := name.toList.contains '.'

/-- A name without the root's name in front; the root itself has no name. -/
def unwrapGlobal (rootName name : String) : String :=
  let lead := rootName.toList ++ ['.']
  if name = rootName then ""
  else if lead.isPrefixOf name.toList then String.ofList (name.toList.drop lead.length)
  else name

/-- The last segments that need brackets, with their bracketed form. -/
def bracketedNames : List (String × String) :=
  [("2DMatrix", "[\"2DMatrix\"]"), ("3DMatrix", "[\"3DMatrix\"]")]

/-- A name as it is declared, with its last segment bracketed if need be. -/
def declaredName (name : String) : String :=
  if isDotted name then
    let segments := Text.pieces '.' name
    match bracketedNames.lookup (segments.getLastD "") with
    | some bracketed => Text.join "." segments.dropLast ++ bracketed
    | none => name
  else (bracketedNames.lookup name).getD name

/-- What a statement that binds a name starts with. -/
def bindingOf (name : String) : String := if isDotted name then name else "var " ++ name

/-- The name of the dictionary of a type: the type's own name is marked, brackets are undone, and
a name of one segment is a variable. -/
def dictionaryName (name : String) : String :=
  let segments := Text.pieces '.' (Text.replace "\"]" "" (Text.replace "[\"" "." name))
  let marked := "_Dictionary_" ++ segments.getLastD ""
  let marked := if segments.length = 1 then "var " ++ marked else marked
  Text.join "." (segments.dropLast ++ [marked])

end ApiTypings.Externs
