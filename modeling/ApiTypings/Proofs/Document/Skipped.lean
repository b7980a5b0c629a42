import ApiTypings.Document.Merge

/-!
The field that takes no part in a merge.

What stands under the skipped field has no influence on a merge, at whatever depth the field occurs.
To say so, the values stored there are hidden: each of them is replaced by `null`, and all else is
kept. Two documents that differ only in such values look the same once these are hidden, and merging
a document comes to the same as merging it with the values hidden, its faults included.
-/

namespace ApiTypings.Document

mutual

/-- A value with whatever is stored under the skipped field hidden. -/
def hide : Json → Json
  | .arr items => .arr (hideItems items)
  | .obj fields => .obj (hideFields fields)
  | v => v

def hideItems : List Json → List Json
  | [] => []
  | v :: rest => hide v :: hideItems rest

def hideFields : List (String × Json) → List (String × Json)
  | [] => []
  | (key, v) :: rest => (key, if key = skippedField then .null else hide v) :: hideFields rest

end

/-! ### What can still be seen -/

@[simp] theorem isEmpty_hideItems (items : List Json) :
    (hideItems items).isEmpty = items.isEmpty := by
  cases items <;> rfl

@[simp] theorem isEmpty_hideFields (fields : Fields) :
    (hideFields fields).isEmpty = fields.isEmpty := by
  cases fields <;> rfl

@[simp] theorem truthy_hide (v : Json) : (hide v).truthy = v.truthy := by
  cases v <;> simp [hide, Json.truthy]

@[simp] theorem text?_hide (v : Json) : (hide v).text? = v.text? := by
  cases v <;> rfl

@[simp] theorem nameKey?_hide (v : Json) : (hide v).nameKey? = v.nameKey? := by
  cases v <;> rfl

theorem get?_hideFields {key : String} (h : key ≠ skippedField) (fields : Fields) :
    Fields.get? (hideFields fields) key = (Fields.get? fields key).map hide := by
  induction fields with
  | nil => rfl
  | cons entry rest ih =>
      obtain ⟨k, v⟩ := entry
      rw [hideFields, Fields.get?_cons, Fields.get?_cons]
      by_cases hk : k = key
      · subst hk
        rw [if_pos rfl, if_pos rfl, if_neg h]
        rfl
      · rw [if_neg hk, if_neg hk, ih]

@[simp] theorem memberKey?_hideFields (fields : Fields) :
    memberKey? (hideFields fields) = memberKey? fields := by
  rw [memberKey?, get?_hideFields (by decide), memberKey?]
  cases Fields.get? fields "name" with
  | none => rfl
  | some v => exact nameKey?_hide v

theorem isMember_hide (v : Json) : isMember (hide v) = isMember v := by
  cases v with
  | obj fields =>
      have hname := get?_hideFields (show "name" ≠ skippedField by decide) fields
      simp [hide, isMember, Fields.has, hname]
  | _ => rfl

@[simp] theorem isMemberList_hideItems (items : List Json) :
    isMemberList (hideItems items) = isMemberList items := by
  have hall : (hideItems items).all isMember = items.all isMember := by
    induction items with
    | nil => rfl
    | cons v rest ih => rw [hideItems, List.all_cons, List.all_cons, isMember_hide, ih]
  rw [isMemberList, isMemberList, hall, isEmpty_hideItems]

/-! ### Merging what can be seen -/

mutual

theorem mergeFields_hideFields :
    ∀ fields target, mergeFields (hideFields fields) target = mergeFields fields target
  | [], target => rfl
  | (key, v) :: rest, target => by
      rw [hideFields, mergeFields, mergeFields]
      by_cases hkey : key = skippedField
      · rw [if_pos hkey, if_pos hkey, mergeFields_hideFields rest target]
      · rw [if_neg hkey, if_neg hkey, if_neg hkey, mergeValue_hide v]
        simp only [mergeFields_hideFields rest]

theorem mergeValue_hide : ∀ v current, mergeValue (hide v) current = mergeValue v current
  | .obj fields, current => by
      rw [hide, mergeValue, mergeValue, mergeFields_hideFields fields]
  | .arr items, current => by
      rw [hide, mergeValue, mergeValue, isMemberList_hideItems, isEmpty_hideItems]
      simp only [mergeMembers_hideItems items, copyItems_hideItems items]
  | .null, _ => rfl
  | .bool _, _ => rfl
  | .int _, _ => rfl
  | .float _, _ => rfl
  | .str _, _ => rfl

theorem mergeMembers_hideItems :
    ∀ items members, mergeMembers (hideItems items) members = mergeMembers items members
  | [], _ => rfl
  | .obj fields :: rest, members => by
      rw [hideItems, hide, mergeMembers, mergeMembers, memberKey?_hideFields]
      simp only [mergeFields_hideFields fields, mergeMembers_hideItems rest]
  | .arr _ :: rest, members => mergeMembers_hideItems rest members
  | .null :: rest, members => mergeMembers_hideItems rest members
  | .bool _ :: rest, members => mergeMembers_hideItems rest members
  | .int _ :: rest, members => mergeMembers_hideItems rest members
  | .float _ :: rest, members => mergeMembers_hideItems rest members
  | .str _ :: rest, members => mergeMembers_hideItems rest members

theorem copyValue_hide : ∀ v, copyValue (hide v) = copyValue v
  | .obj fields => by rw [hide, copyValue, copyValue, mergeFields_hideFields fields]
  | .arr items => by rw [hide, copyValue, copyValue, copyItems_hideItems items]
  | .null => rfl
  | .bool _ => rfl
  | .int _ => rfl
  | .float _ => rfl
  | .str _ => rfl

theorem copyItems_hideItems : ∀ items, copyItems (hideItems items) = copyItems items
  | [] => rfl
  | v :: rest => by rw [hideItems, copyItems, copyItems, copyValue_hide v, copyItems_hideItems rest]

end

end ApiTypings.Document
