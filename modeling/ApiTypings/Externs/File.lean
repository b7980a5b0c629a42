import ApiTypings.Externs.Member
import ApiTypings.Journal
import ApiTypings.Settings.Options
import ApiTypings.Text.Sorted

/-!
Externs files.

The records of a description are written in the order of the names they are filed under, each on
its own. A pseudo type is a record type; any other type is a function with its members bound to it,
followed by the dictionary of its writable properties.
-/

namespace ApiTypings.Externs

/-- The name of a record: its own if it counts as present, or else the one it is filed under. It
has to be text. -/
def recordName (cls : Fields) (key : String) : Except Fault String :=
  let own := cls.get "name"
  if own.truthy then
    match own with
    | .str name => .ok name
    | _ => .error .notText
  else .ok key

/-- A line of free text after a tag, if the field counts as present. -/
def taggedText (tags : List String) (v : Json) : Except Fault (List String) :=
  if v.truthy then (freeText v).map fun text => [commentLine (tags ++ [text])] else .ok []

/-- The field and the comment line of a property of a record type. -/
def recordProperty (m : Named) : Except Fault (String × String) := do
  let name ← joinable m.name
  let type := TypeText.Closure.annotation (m.fields.get "type") false false
  let summary ← freeText (m.fields.get "summary")
  pure (recordField name type, commentLine ["-", name, summary])

/-- The text of a pseudo type. -/
def typedefText (cls : Fields) (name : String) : Except Fault String := do
  let summary ← taggedText [] (cls.get "summary")
  let properties ← (cls.get "properties").members.mapM recordProperty
  let fields := properties.map (·.1)
  pure (Text.join "\n" (["/**"] ++ summary ++ properties.map (·.2) ++ [recordOpening] ++
    (if fields.isEmpty then [] else [Text.join ",\n" fields]) ++
    [recordClosing, " */", bindingOf name ++ " = \x7b\x7d;", ""]))

/-- The comment of a type. -/
def typeComment (cls : Fields) : Except Fault (List String) := do
  let summary ← taggedText [] (cls.get "summary")
  let created := if (cls.get "__creatable").truthy then [commentLine ["@constructor"]] else []
  let extended ←
    if (cls.get "extends").truthy then
      (joinable (cls.get "extends")).map fun s => [commentLine ["@extends", braced s]]
    else .ok []
  let description ← taggedText ["@description"] (cls.get "description")
  let since ← match cls.get "since" with
    | .null => .ok []
    | v => (sinceLine v).map ([·])
  pure (["/**"] ++ summary ++ created ++ extended ++ description ++ since ++ [" */"])

/-- The properties of a type, if the document speaks of any, and the lines of its dictionary. -/
def propertiesPart (cls : Fields) (declName : String) :
    Except Fault (List String × List String) :=
  match cls.get "properties" with
  | .null => .ok ([], [])
  | _ => (propertiesText cls declName).map fun r => (["", r.1], r.2)

/-- The methods of a type, if the document speaks of any. -/
def methodsPart (cls : Fields) (declName : String) : Except Fault (List String) :=
  match cls.get "methods" with
  | .null => .ok []
  | _ => (methodsText cls declName).map fun text => ["", text]

/-- The lines of a type that is not a pseudo type. -/
def typeLines (cls : Fields) (name : Except Fault String) : Except Fault (List String) := do
  let comment ← typeComment cls
  let name ← name
  let declName := declaredName name
  let binding := if declName = "" then [] else [bindingOf declName ++ " = function() \x7b\x7d;"]
  let (properties, dictionary) ← propertiesPart cls declName
  let methods ← methodsPart cls declName
  pure (comment ++ binding ++ properties ++ methods ++ [""] ++ dictionary)

/-- Whether a document is that of a pseudo type. -/
def isPseudo (cls : Fields) : Bool := (cls.get "__subtype").text? == some "pseudo"

/-- The lines of one record. -/
def classLines (cls : Fields) (key rootName : String) : Except Fault (List String) :=
  let name := (recordName cls key).map (unwrapGlobal rootName)
  if isPseudo cls then do
    let name ← name
    let text ← typedefText cls name
    pure [text, ""]
  else typeLines cls name

/-! ### Files -/

def headerLines : List String :=
  ["/**", " * @fileoverview Generated externs.  DO NOT EDIT!", " * @externs", " */", ""]

def footer : String := "var Ti = Titanium;"

/-- The lines of the record filed under a name; a value that is no object has none. -/
def entryLines (apis : Fields) (rootName key : String) : Except Fault (List String) :=
  match apis.get key with
  | .obj cls => classLines cls key rootName
  | _ => .ok []

/-- The lines of all records, in the order of their names. -/
def recordLines (apis : Fields) (rootName : String) : Except Fault (List String) :=
  ((Text.sortDistinct apis.keys).mapM (entryLines apis rootName)).map List.flatten

/-- The position that a value stands for: an integer, or a truth value as zero or one. -/
def position? : Json → Option Int
  | .int n => some n
  | .bool b => some (if b then 1 else 0)
  | _ => none

/-- Whether a value is a number; numbers of all kinds have one order. -/
def isNumber : Json → Bool
  | .float _ => true
  | v => (position? v).isSome

/-- Whether nothing stands at a position in a list; a negative one counts from the end. -/
def isOutside (items : List Json) (position : Int) : Bool :=
  position < -(items.length : Int) || (items.length : Int) ≤ position

/-- The items that are integers outside a list, with the places at which they stand. -/
def strays (items : List Json) : List (Int × Nat) :=
  items.zipIdx.filterMap fun (item, i) =>
    ((position? item).filter (isOutside items)).map fun p => (p, i)

/-- The items that are floating-point numbers, with the places at which they stand. -/
def reals (items : List Json) : List (Binary64 × Nat) :=
  items.zipIdx.filterMap fun (item, i) => if let .float x := item then some (x, i) else none

/-- Whether an item that is an integer is looked up before a floating-point number: if it is less,
or equal and listed first. -/
def isBefore (p : Int × Nat) (x : Binary64 × Nat) : Bool := !x.1.isBelow p.1 (p.2 < x.2)

/-- The lines of a list in place of a description. A list has positions instead of names, and its own
items, in order, have to be positions in it. No position is a record, and so there are no lines; of
the items that are no positions the least one decides on the fault. -/
def listLines (items : List Json) : Except Fault (List String) :=
  if items.all isNumber then
    match (strays items).find? fun p => (reals items).all (isBefore p), reals items with
    | some p, _ => .error (.noSuchPosition p.1)
    | none, [] => .ok []
    | none, _ => .error .notARecord
  else .error .notARecord

/-- The lines of the records of a description. An empty value of any collective kind has none. -/
def bodyLines (apis : Json) (rootName : String) : Except Fault (List String) :=
  match apis with
  | .obj apis => recordLines apis rootName
  | .arr items => listLines items
  | .str "" => .ok []
  | _ => .error .notARecord

/-- The externs of an API description. -/
def generate (apis : Json) (rootName : String) : Report String := do
  Report.tell .info .externs "Generating closure externs..."
  let lines ← Report.ofExcept (bodyLines apis rootName)
  pure (Text.join "\n" (headerLines ++ lines ++ [footer]))

end ApiTypings.Externs
