import ApiTypings.Fault
import ApiTypings.Json.Basic

/-!
Merging the documents of one name.

Several records may describe the same type. They are folded together: an object is merged field by
field, a list of named members is merged member by member, and any other value replaces what was
there. An empty list adds nothing to a list, and the field `global` is left out wherever it stands.

A name that is a list or an object ends the merge. What had been merged by then stays merged, so
the result of a merge is a value together with the fault, if any, that cut it short.
-/

namespace ApiTypings.Document

/-- The result of a merge: what has been merged, and the fault that cut it short. -/
structure Merged (α : Type) where
  value : α
  fault : Option Fault

/-- The field that never takes part in a merge. -/
def skippedField : String := "global"

/-- What the name of a member is compared by, if the object is a member at all. -/
def memberKey? (fields : Fields) : Option NameKey := (fields.get? "name").bind Json.nameKey?

/-- Whether a value is an object with a name field. -/
def isMember : Json → Bool
  | .obj fields => Fields.has fields "name"
  | _ => false

/-- A list of members: not empty, and made of objects that carry a name. -/
def isMemberList (items : List Json) : Bool := !items.isEmpty && items.all isMember

/-- Whether a value is a member whose name cannot be compared. -/
def isUnnameable : Json → Bool
  | .obj fields => Fields.has fields "name" && (memberKey? fields).isNone
  | _ => false

/-- Merges into the first member with this name, or into a new one at the end. -/
def placeMember (merge : Fields → Merged Fields) (key : NameKey) :
    List Json → Merged (List Json)
  | [] =>
    let r := merge []
    ⟨if r.fault.isSome then [] else [.obj r.value], r.fault⟩
  | .obj fields :: rest =>
    if memberKey? fields = some key then
      let r := merge fields
      ⟨.obj r.value :: rest, r.fault⟩
    else
      let r := placeMember merge key rest
      ⟨.obj fields :: r.value, r.fault⟩
  | v :: rest =>
    let r := placeMember merge key rest
    ⟨v :: r.value, r.fault⟩

/-- Stores a value, if there is one to store. -/
def store (target : Fields) (key : String) : Option Json → Fields
  | none => target
  | some v => target.set key v

/-- The fields of the value that is merged into; anything but an object starts empty. -/
def fieldsOf : Option Json → Fields
  | some (.obj fields) => fields
  | _ => []

/-- The list that is merged into, if there is one. -/
def itemsOf? : Option Json → Option (List Json)
  | some (.arr items) => some items
  | _ => none

mutual

/-- Merges the fields of a document into a target, from the first field to the last. -/
def mergeFields : List (String × Json) → Fields → Merged Fields
  | [], target => ⟨target, none⟩
  | (key, v) :: rest, target =>
    if key = skippedField then mergeFields rest target
    else
      let r := mergeValue v (target.get? key)
      match r.fault with
      | none => mergeFields rest (store target key r.value)
      | some fault => ⟨store target key r.value, some fault⟩

/-- What a value makes of the value in its place; no value means that the place is left as it is. -/
def mergeValue : Json → Option Json → Merged (Option Json)
  | .obj fields, current =>
    let r := mergeFields fields (fieldsOf current)
    ⟨some (.obj r.value), r.fault⟩
  | .arr items, current =>
    if isMemberList items then
      let old? := itemsOf? current
      let old := old?.getD []
      if old.any isUnnameable then ⟨none, some .notAName⟩
      else
        let r := mergeMembers items old
        match r.fault with
        | none => ⟨some (.arr r.value), none⟩
        | some fault => ⟨old?.map fun old => .arr (r.value.take old.length), some fault⟩
    else if items.isEmpty && (itemsOf? current).isSome then ⟨none, none⟩
    else
      match copyItems items with
      | .ok items => ⟨some (.arr items), none⟩
      | .error fault => ⟨none, some fault⟩
  | v, _ => ⟨some v, none⟩

/-- Merges members one after another into a list. -/
def mergeMembers : List Json → List Json → Merged (List Json)
  | [], members => ⟨members, none⟩
  | .obj fields :: rest, members =>
    match memberKey? fields with
    | none => ⟨members, some .notAName⟩
    | some key =>
      let r := placeMember (fun target => mergeFields fields target) key members
      match r.fault with
      | none => mergeMembers rest r.value
      | some fault => ⟨r.value, some fault⟩
  | _ :: rest, members => mergeMembers rest members

/-- A copy of a value, with the objects in it merged afresh. -/
def copyValue : Json → Except Fault Json
  | .obj fields =>
    let r := mergeFields fields []
    match r.fault with
    | none => .ok (.obj r.value)
    | some fault => .error fault
  | .arr items => (copyItems items).map .arr
  | v => .ok v

def copyItems : List Json → Except Fault (List Json)
  | [] => .ok []
  | v :: rest =>
    match copyValue v with
    | .error fault => .error fault
    | .ok v => (copyItems rest).map (v :: ·)

end

/-- Merges a document into a target. Only an object can be merged. -/
def merge (source : Json) (target : Fields) : Merged Fields :=
  match source with
  | .obj fields => mergeFields fields target
  | _ => ⟨target, some .notAnObject⟩

end ApiTypings.Document
