import ApiTypings.Json.Basic

/-!
The parts of a value.

What is found under a key of an object is one of its fields. The values in a list and under the keys of an object are smaller than the whole, so that a proof or
a measure can go from them to the whole. A condition on lists can be asked of every list in a value,
at whatever depth it stands.
-/

namespace ApiTypings

namespace Fields

theorem mem_of_get? {fields : Fields} {key : String} {v : Json}
    (h : fields.get? key = some v) : (key, v) ∈ fields := by
  induction fields with
  | nil => simp at h
  | cons entry rest ih =>
      obtain ⟨k, w⟩ := entry
      rw [get?_cons] at h
      split at h
      next hk =>
        obtain rfl := Option.some.inj h
        exact hk ▸ List.mem_cons_self
      · exact List.mem_cons_of_mem _ (ih h)

theorem get?_of_not_mem_keys {fields : Fields} {key : String} (h : key ∉ fields.keys) :
    fields.get? key = none := by
  cases hv : fields.get? key with
  | none => rfl
  | some v => exact absurd (List.mem_map.2 ⟨_, mem_of_get? hv, rfl⟩) h

theorem get?_append (xs ys : Fields) (key : String) :
    Fields.get? (xs ++ ys) key = (Fields.get? xs key).or (Fields.get? ys key) := by
  induction xs with
  | nil => rfl
  | cons entry rest ih =>
      obtain ⟨k, v⟩ := entry
      rw [List.cons_append, get?_cons, get?_cons, ih]
      split <;> rfl

end Fields

namespace Json

theorem sizeOf_lt_of_mem_obj {fields : Fields} {entry : String × Json} (h : entry ∈ fields) :
    sizeOf entry.2 < sizeOf (Json.obj fields) := by
  obtain ⟨key, v⟩ := entry
  have hentry := List.sizeOf_lt_of_mem h
  simp only [Prod.mk.sizeOf_spec, Json.obj.sizeOf_spec] at hentry ⊢
  omega

theorem sizeOf_lt_of_mem_arr {items : List Json} {v : Json} (h : v ∈ items) :
    sizeOf v < sizeOf (Json.arr items) := by
  have hitem := List.sizeOf_lt_of_mem h
  simp only [Json.arr.sizeOf_spec]
  omega

/-- A proof for all values: from the values in an object or in a list to the whole, and for what can
be a name on its own. -/
theorem ofParts {motive : Json → Prop}
    (obj : ∀ fields : Fields, (∀ entry ∈ fields, motive entry.2) → motive (.obj fields))
    (arr : ∀ items, (∀ v ∈ items, motive v) → motive (.arr items))
    (name : ∀ v : Json, v.nameKey?.isSome → motive v) (v : Json) : motive v := by
  induction hsize : sizeOf v using Nat.strongRecOn generalizing v with
  | ind size ih =>
      subst hsize
      cases v with
      | obj fields =>
          exact obj fields fun entry hentry => ih _ (sizeOf_lt_of_mem_obj hentry) entry.2 rfl
      | arr items => exact arr items fun w hw => ih _ (sizeOf_lt_of_mem_arr hw) w rfl
      | _ => exact name _ rfl

mutual

/-- Every list in a value satisfies a condition. -/
def EveryList (P : List Json → Prop) : Json → Prop
  | .arr items => P items ∧ EveryListInItems P items
  | .obj fields => EveryListInValues P fields
  | _ => True

def EveryListInItems (P : List Json → Prop) : List Json → Prop
  | [] => True
  | v :: rest => EveryList P v ∧ EveryListInItems P rest

def EveryListInValues (P : List Json → Prop) : List (String × Json) → Prop
  | [] => True
  | (_, v) :: rest => EveryList P v ∧ EveryListInValues P rest

end

variable {P : List Json → Prop}

theorem everyList_arr {items : List Json} :
    (Json.arr items).EveryList P ↔ P items ∧ ∀ v ∈ items, v.EveryList P := by
  have hitems : EveryListInItems P items ↔ ∀ v ∈ items, v.EveryList P := by
    induction items with
    | nil => simp [EveryListInItems]
    | cons v rest ih => rw [EveryListInItems, ih, List.forall_mem_cons]
  rw [EveryList, hitems]

theorem everyList_obj {fields : Fields} :
    (Json.obj fields).EveryList P ↔ ∀ entry ∈ fields, entry.2.EveryList P := by
  rw [EveryList]
  induction fields with
  | nil => simp [EveryListInValues]
  | cons entry rest ih => rw [EveryListInValues, ih, List.forall_mem_cons]

end Json

end ApiTypings
