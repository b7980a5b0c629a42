import ApiTypings.Api.Record
import ApiTypings.Fault
import ApiTypings.Json.Display

/-!
Reading records from merged documents.

Reading is lenient: a missing collection is empty, an entry of a collection that is no object or
has no usable name is dropped, and a value of the wrong kind is taken by its text form. Within a
collection a member therefore always has a name. A record that is read on its own has to be an
object with a name, and the exclusions of a type have to be an object if they are present.
-/

namespace ApiTypings

/-- The text of a value, nothing for `null`. -/
def Json.asText : Json → String
  | .null => ""
  | v => v.display

/-- The versions by platform of an object, nothing of any other value. -/
def Json.asSince : Json → Since
  | .obj fields => fields.map fun f => (f.1, f.2.display)
  | _ => []

/-- The names in a collection, each by its text form. -/
def Json.asNames (v : Json) : List String := v.entries.map Json.display

/-- A member of a collection: its name, which counts as present, and its fields. -/
structure Named where
  name : Json
  fields : Fields

/-- A value as a member of a collection. -/
def Json.named? : Json → Option Named
  | .obj fields =>
    match Fields.get? fields "name" with
    | some name => if name.truthy then some ⟨name, fields⟩ else none
    | none => none
  | _ => none

/-- The members of a collection, without the entries that have no name. -/
def Json.members (v : Json) : List Named := v.entries.filterMap Json.named?

/-- A deprecation is an object; any other value is none. -/
def Deprecation.ofJson? : Json → Option Deprecation
  | .obj fields =>
    some
      { since := (Fields.get fields "since").asText
        removed := (Fields.get fields "removed").asText
        notes := (Fields.get fields "notes").asText }
  | _ => none

/-- The kind that a type's marker names; any other value marks a plain namespace. -/
def TypeKind.ofJson : Json → TypeKind
  | .str "proxy" => .proxy
  | .str "view" => .view
  | .str "pseudo" => .pseudo
  | _ => .scope

namespace Property

def ofNamed (m : Named) : Property :=
  { name := m.name
    type := m.fields.get "type"
    summary := (m.fields.get "summary").asText
    since := (m.fields.get "since").asSince
    permission := (m.fields.get "permission").asText
    deprecation := Deprecation.ofJson? (m.fields.get "deprecated") }

end Property

namespace Parameter

def ofNamed (m : Named) : Parameter :=
  { name := m.name
    type := m.fields.get "type"
    optional := (m.fields.get "optional").truthy
    repeatable := (m.fields.get "repeatable").truthy
    summary := (m.fields.get "summary").asText }

end Parameter

namespace Method

/-- The value returned, an empty collection meaning that there is none. -/
def returnsOf : Json → Json
  | .arr [] => .null
  | .obj [] => .null
  | v => v

def ofNamed (m : Named) : Method :=
  { name := m.name
    summary := (m.fields.get "summary").asText
    since := (m.fields.get "since").asSince
    parameters := (m.fields.get "parameters").members.map Parameter.ofNamed
    returns := returnsOf (m.fields.get "returns")
    deprecation := Deprecation.ofJson? (m.fields.get "deprecated") }

end Method

namespace Event

def ofNamed (m : Named) : Event :=
  { name := m.name
    summary := (m.fields.get "summary").asText
    properties := (m.fields.get "properties").members.map Property.ofNamed }

end Event

namespace OwnExclusions

/-- The exclusions of a type: none, unless a value that counts as present is given, which then has
to be an object. -/
def ofJson (v : Json) : Except Fault OwnExclusions :=
  if !v.truthy then .ok ⟨[], [], []⟩
  else
    match v with
    | .obj fields =>
      .ok
        { methods := (Fields.get fields "methods").asNames
          properties := (Fields.get fields "properties").asNames
          events := (Fields.get fields "events").asNames }
    | _ => .error .notAnObject

end OwnExclusions

namespace TypeRecord

/-- The name of a document, or another one if it has none. -/
def nameOf (doc : Fields) (fallback : String) : String :=
  let name := (doc.get "name").asText
  if name = "" then fallback else name

/-- The name of the type that a document extends, if any. -/
def extendsOf? (doc : Fields) : Option String :=
  let name := (doc.get "extends").asText
  if name = "" then none else some name

/-- The record of a merged document. -/
def ofFields (doc : Fields) (fallback : String) : Except Fault TypeRecord := do
  let excludes ← OwnExclusions.ofJson (doc.get "excludes")
  pure
    { name := nameOf doc fallback
      summary := (doc.get "summary").asText
      description := (doc.get "description").asText
      since := (doc.get "since").asSince
      extends? := extendsOf? doc
      kind := TypeKind.ofJson (doc.get "__subtype")
      creatable := (doc.get "__creatable").truthy
      properties := (doc.get "properties").members.map Property.ofNamed
      methods := (doc.get "methods").members.map Method.ofNamed
      events := (doc.get "events").members.map Event.ofNamed
      excludes := excludes
      deprecation := Deprecation.ofJson? (doc.get "deprecated") }

/-- The record of a document, which has to be an object. -/
def ofJson : Json → String → Except Fault TypeRecord
  | .obj doc, fallback => ofFields doc fallback
  | _, _ => .error .notAnObject

end TypeRecord

/-! ### Records on their own -/

/-- A record on its own: an object with a name of any kind. -/
def Json.record (ifNot : Fault) : Json → Except Fault Named
  | .obj fields =>
    match Fields.get? fields "name" with
    | some name => .ok ⟨name, fields⟩
    | none => .error (.missingField "name")
  | _ => .error ifNot

def Property.ofJson (doc : Json) : Except Fault Property :=
  (doc.record .notARecord).map Property.ofNamed

def Parameter.ofJson (doc : Json) : Except Fault Parameter :=
  (doc.record .notARecord).map Parameter.ofNamed

/-- A method on its own is asked for its fields before its name. -/
def Method.ofJson (doc : Json) : Except Fault Method :=
  (doc.record .notAnObject).map Method.ofNamed

def Event.ofJson (doc : Json) : Except Fault Event :=
  (doc.record .notARecord).map Event.ofNamed

end ApiTypings
