import ApiTypings.Document.Merge
import ApiTypings.Proofs.Json.Parts

/-!
Conditions on all objects in a document.

A condition on the fields of an object can be asked of every object in a value, at whatever depth it
stands. Merging keeps such a condition if storing one field keeps it. What is stored is of the same
sort as the value that is merged, and the very value if that is neither a list nor an object; this
is all that needs to be known of a merge to see that a condition is kept.
-/

namespace ApiTypings

namespace Json

mutual

/-- Every object in a value satisfies a condition. -/
def Throughout (P : Fields → Prop) : Json → Prop
  | .arr items => ThroughoutItems P items
  | .obj fields => P fields ∧ ThroughoutValues P fields
  | _ => True

def ThroughoutItems (P : Fields → Prop) : List Json → Prop
  | [] => True
  | v :: rest => Throughout P v ∧ ThroughoutItems P rest

def ThroughoutValues (P : Fields → Prop) : List (String × Json) → Prop
  | [] => True
  | (_, v) :: rest => Throughout P v ∧ ThroughoutValues P rest

end

variable {P : Fields → Prop}

theorem throughoutItems_iff {items : List Json} :
    ThroughoutItems P items ↔ ∀ v ∈ items, v.Throughout P := by
  induction items with
  | nil => simp [ThroughoutItems]
  | cons v rest ih => rw [ThroughoutItems, ih, List.forall_mem_cons]

theorem throughoutValues_iff {fields : Fields} :
    ThroughoutValues P fields ↔ ∀ entry ∈ fields, entry.2.Throughout P := by
  induction fields with
  | nil => simp [ThroughoutValues]
  | cons entry rest ih => rw [ThroughoutValues, ih, List.forall_mem_cons]

theorem throughout_arr {items : List Json} :
    (Json.arr items).Throughout P ↔ ∀ v ∈ items, v.Throughout P := throughoutItems_iff

theorem throughout_obj {fields : Fields} :
    (Json.obj fields).Throughout P ↔ P fields ∧ ∀ entry ∈ fields, entry.2.Throughout P :=
  and_congr_right' throughoutValues_iff

mutual

theorem throughout_true : ∀ v : Json, v.Throughout fun _ => True
  | .arr items => throughoutItems_true items
  | .obj fields => ⟨trivial, throughoutValues_true fields⟩
  | .null => trivial
  | .bool _ => trivial
  | .int _ => trivial
  | .float _ => trivial
  | .str _ => trivial

theorem throughoutItems_true : ∀ items : List Json, ThroughoutItems (fun _ => True) items
  | [] => trivial
  | v :: rest => ⟨throughout_true v, throughoutItems_true rest⟩

theorem throughoutValues_true :
    ∀ fields : List (String × Json), ThroughoutValues (fun _ => True) fields
  | [] => trivial
  | (_, v) :: rest => ⟨throughout_true v, throughoutValues_true rest⟩

end

/-- A value that may stand in another one's place after a merge: a list for a list, an object for an
object, and for any other value only that value. -/
def MergesTo : Json → Json → Prop
  | .arr _, w => ∃ items, w = .arr items
  | .obj _, w => ∃ fields, w = .obj fields
  | v, w => w = v

end Json

theorem Fields.mem_set {fields : Fields} {key k : String} {v w : Json}
    (h : (k, v) ∈ fields.set key w) : (k, v) ∈ fields ∨ k = key ∧ v = w := by
  induction fields with
  | nil =>
      rw [set, List.mem_singleton, Prod.mk.injEq] at h
      exact .inr h
  | cons entry rest ih =>
      obtain ⟨f, x⟩ := entry
      rw [set] at h
      split at h
      next hf =>
        subst hf
        rcases List.mem_cons.1 h with h | h
        · exact .inr (Prod.mk.inj h)
        · exact .inl (List.mem_cons_of_mem _ h)
      · rcases List.mem_cons.1 h with h | h
        · exact .inl (h ▸ List.mem_cons_self)
        · exact (ih h).imp_left (List.mem_cons_of_mem _)

/-- A key that occurs with one value only is found with it. -/
theorem Fields.get?_of_unique {fields : Fields} {key : String} {v : Json}
    (h : ∀ w, (key, w) ∈ fields ↔ w = v) : fields.get? key = some v := by
  have hall : ∀ w, (key, w) ∈ fields → w = v := fun w => (h w).1
  have hsome := (h v).2 rfl
  clear h
  induction fields with
  | nil => simp at hsome
  | cons field rest ih =>
      obtain ⟨k, w⟩ := field
      by_cases hk : k = key
      · subst hk
        rw [get?_cons, if_pos rfl, hall w List.mem_cons_self]
      · rw [get?_cons, if_neg hk]
        refine ih (fun w hw => hall w (List.mem_cons_of_mem _ hw)) ?_
        simpa [Ne.symm hk] using hsome

namespace Document

/-- A condition that merging objects of one sort into those of another keeps. -/
structure KeptBy (Q P : Fields → Prop) : Prop where
  empty : P []
  set : ∀ {source target : Fields} {key : String} {v w : Json}, Q source → (key, v) ∈ source →
    key ≠ skippedField → P target → v.MergesTo w → P (target.set key w)

variable {Q P : Fields → Prop}

theorem throughout_placeMember {merge : Fields → Merged Fields} (hempty : P [])
    (hmerge : ∀ target, (Json.obj target).Throughout P →
      (Json.obj (merge target).value).Throughout P) (key : NameKey) {members : List Json}
    (h : ∀ m ∈ members, m.Throughout P) :
    ∀ m ∈ (placeMember merge key members).value, m.Throughout P := by
  fun_induction placeMember merge key members with
  | case1 r =>
      have hnew : (Json.obj r.value).Throughout P :=
        hmerge [] (Json.throughout_obj.2 ⟨hempty, by simp⟩)
      split
      · simp
      · simpa using hnew
  | case2 fields rest hkey r =>
      obtain ⟨hhead, hrest⟩ := List.forall_mem_cons.1 h
      exact List.forall_mem_cons.2 ⟨hmerge fields hhead, hrest⟩
  | case3 fields rest hkey r ih =>
      obtain ⟨hhead, hrest⟩ := List.forall_mem_cons.1 h
      exact List.forall_mem_cons.2 ⟨hhead, ih hrest⟩
  | case4 v rest hv r ih =>
      obtain ⟨hhead, hrest⟩ := List.forall_mem_cons.1 h
      exact List.forall_mem_cons.2 ⟨hhead, ih hrest⟩

theorem throughout_store (hkept : KeptBy Q P) {source target : Fields} {key : String} {v : Json}
    {result : Option Json} (hsource : Q source) (hmem : (key, v) ∈ source)
    (hkey : key ≠ skippedField) (htarget : (Json.obj target).Throughout P)
    (hresult : ∀ w, result = some w → w.Throughout P ∧ v.MergesTo w) :
    (Json.obj (store target key result)).Throughout P := by
  cases result with
  | none => exact htarget
  | some w =>
      obtain ⟨hw, hform⟩ := hresult w rfl
      obtain ⟨hP, hvalues⟩ := Json.throughout_obj.1 htarget
      refine Json.throughout_obj.2 ⟨hkept.set hsource hmem hkey hP hform, ?_⟩
      rintro ⟨k, x⟩ hx
      rcases Fields.mem_set hx with hx | ⟨-, rfl⟩
      · exact hvalues _ hx
      · exact hw

mutual

/-- The fields merged are some of those of a whole object, of which the condition is known. -/
theorem throughout_mergeFields (hkept : KeptBy Q P) :
    ∀ (fields : List (String × Json)) {source target : Fields}, Q source →
      (∀ entry ∈ fields, entry ∈ source) → Json.ThroughoutValues Q fields →
      (Json.obj target).Throughout P → (Json.obj (mergeFields fields target).value).Throughout P
  | [], _, _ => fun _ _ _ htarget => htarget
  | (key, v) :: rest, source, target => by
      intro hsource hsub hvalues htarget
      obtain ⟨hmem, hsub⟩ := List.forall_mem_cons.1 hsub
      rw [mergeFields]
      split
      · exact throughout_mergeFields hkept rest hsource hsub hvalues.2 htarget
      next hkey =>
        have hget : ∀ w, target.get? key = some w → w.Throughout P := fun w hw =>
          (Json.throughout_obj.1 htarget).2 _ (Fields.mem_of_get? hw)
        have hstore := throughout_store hkept hsource hmem hkey htarget
          (throughout_mergeValue hkept v hvalues.1 hget)
        -- Cut short or not, the field has been stored by now.
        dsimp only
        split
        · exact throughout_mergeFields hkept rest hsource hsub hvalues.2 hstore
        · exact hstore

theorem throughout_mergeValue (hkept : KeptBy Q P) :
    ∀ (v : Json) {current : Option Json}, v.Throughout Q →
      (∀ w, current = some w → w.Throughout P) →
      ∀ w, (mergeValue v current).value = some w → w.Throughout P ∧ v.MergesTo w
  | .obj fields, current => by
      intro hv hcurrent w hw
      have hold : (Json.obj (fieldsOf current)).Throughout P := by
        unfold fieldsOf
        split
        · exact hcurrent _ rfl
        · exact Json.throughout_obj.2 ⟨hkept.empty, by simp⟩
      obtain rfl := Option.some.inj hw
      exact ⟨throughout_mergeFields hkept fields hv.1 (fun _ h => h) hv.2 hold, _, rfl⟩
  | .arr items, current => by
      intro hv hcurrent w hw
      have hold : ∀ m ∈ (itemsOf? current).getD [], m.Throughout P := by
        unfold itemsOf?
        split
        · exact Json.throughout_arr.1 (hcurrent _ rfl)
        · simp
      have hmembers := throughout_mergeMembers hkept items hv hold
      have hcopy := throughout_copyItems hkept items hv
      rw [mergeValue] at hw
      dsimp only at hw
      split at hw
      · split at hw
        · simp at hw
        · split at hw
          · obtain rfl := Option.some.inj hw
            exact ⟨Json.throughout_arr.2 hmembers, _, rfl⟩
          · -- Of a merge that was cut short as many members stay as there were.
            obtain ⟨old, -, rfl⟩ := Option.map_eq_some_iff.1 hw
            exact ⟨Json.throughout_arr.2 fun m hm => hmembers m (List.mem_of_mem_take hm), _, rfl⟩
      · split at hw
        · simp at hw
        · split at hw
          next copied hcopied =>
            obtain rfl := Option.some.inj hw
            exact ⟨Json.throughout_arr.2 (hcopy _ hcopied), _, rfl⟩
          · simp at hw
  | .null, _ => fun _ _ _ hw => Option.some.inj hw ▸ ⟨trivial, rfl⟩
  | .bool _, _ => fun _ _ _ hw => Option.some.inj hw ▸ ⟨trivial, rfl⟩
  | .int _, _ => fun _ _ _ hw => Option.some.inj hw ▸ ⟨trivial, rfl⟩
  | .float _, _ => fun _ _ _ hw => Option.some.inj hw ▸ ⟨trivial, rfl⟩
  | .str _, _ => fun _ _ _ hw => Option.some.inj hw ▸ ⟨trivial, rfl⟩

theorem throughout_mergeMembers (hkept : KeptBy Q P) :
    ∀ (items : List Json) {members : List Json}, Json.ThroughoutItems Q items →
      (∀ m ∈ members, m.Throughout P) → ∀ m ∈ (mergeMembers items members).value, m.Throughout P
  | [], _ => fun _ hmembers => hmembers
  | .obj fields :: rest, members => by
      intro hitems hmembers
      rw [mergeMembers]
      split
      · exact hmembers
      next key hkey =>
        have hmerge (target : Fields) (htarget : (Json.obj target).Throughout P) :=
          throughout_mergeFields hkept fields hitems.1.1 (fun _ h => h) hitems.1.2 htarget
        have hplace := throughout_placeMember hkept.empty hmerge key hmembers
        dsimp only
        split
        · exact throughout_mergeMembers hkept rest hitems.2 hplace
        · exact hplace
  | .arr _ :: rest, _ => fun hitems => throughout_mergeMembers hkept rest hitems.2
  | .null :: rest, _ => fun hitems => throughout_mergeMembers hkept rest hitems.2
  | .bool _ :: rest, _ => fun hitems => throughout_mergeMembers hkept rest hitems.2
  | .int _ :: rest, _ => fun hitems => throughout_mergeMembers hkept rest hitems.2
  | .float _ :: rest, _ => fun hitems => throughout_mergeMembers hkept rest hitems.2
  | .str _ :: rest, _ => fun hitems => throughout_mergeMembers hkept rest hitems.2

theorem throughout_copyValue (hkept : KeptBy Q P) : ∀ (v : Json), v.Throughout Q →
    ∀ w, copyValue v = .ok w → w.Throughout P
  | .obj fields => by
      intro hv w hw
      have hfields := throughout_mergeFields hkept fields hv.1 (fun _ h => h) hv.2
        (Json.throughout_obj.2 ⟨hkept.empty, by simp⟩)
      rw [copyValue] at hw
      split at hw
      · obtain rfl := Except.ok.inj hw
        exact hfields
      · simp at hw
  | .arr items => by
      intro hv w hw
      rw [copyValue] at hw
      cases hcopied : copyItems items with
      | error fault => simp [hcopied, Except.map] at hw
      | ok copied =>
          obtain rfl : Json.arr copied = w := by simpa [hcopied, Except.map] using hw
          exact Json.throughout_arr.2 (throughout_copyItems hkept items hv copied hcopied)
  | .null => fun _ _ hw => Except.ok.inj hw ▸ trivial
  | .bool _ => fun _ _ hw => Except.ok.inj hw ▸ trivial
  | .int _ => fun _ _ hw => Except.ok.inj hw ▸ trivial
  | .float _ => fun _ _ hw => Except.ok.inj hw ▸ trivial
  | .str _ => fun _ _ hw => Except.ok.inj hw ▸ trivial

theorem throughout_copyItems (hkept : KeptBy Q P) :
    ∀ (items : List Json), Json.ThroughoutItems Q items →
      ∀ copied, copyItems items = .ok copied → ∀ m ∈ copied, m.Throughout P
  | [] => by
      intro _ copied h
      obtain rfl := Except.ok.inj h
      simp
  | v :: rest => by
      intro hitems copied h
      rw [copyItems] at h
      cases hv : copyValue v with
      | error fault => simp [hv] at h
      | ok w =>
          cases hrest : copyItems rest with
          | error fault => simp [hv, hrest, Except.map] at h
          | ok others =>
              obtain rfl : w :: others = copied := by simpa [hv, hrest, Except.map] using h
              exact List.forall_mem_cons.2 ⟨throughout_copyValue hkept v hitems.1 w hv,
                throughout_copyItems hkept rest hitems.2 others hrest⟩

end

/-- What is stored in a merge is of the sort of the value that is merged. -/
theorem mergesTo_mergeValue {v w : Json} {current : Option Json}
    (h : (mergeValue v current).value = some w) : v.MergesTo w := by
  have htrue : KeptBy (fun _ => True) fun _ => True := ⟨trivial, fun _ _ _ _ _ => trivial⟩
  exact (throughout_mergeValue htrue v (Json.throughout_true v)
    (fun x _ => Json.throughout_true x) w h).2

/-- A condition on the fields of the document itself, not of the objects in it, is kept if storing
one field keeps it. -/
theorem mergeFields_keeps {C : Fields → Prop} {source target : Fields}
    (hset : ∀ entry ∈ source, ∀ fields w, C fields → entry.2.MergesTo w →
      C (fields.set entry.1 w)) (h : C target) : C (mergeFields source target).value := by
  induction source generalizing target with
  | nil => exact h
  | cons entry rest ih =>
      obtain ⟨key, v⟩ := entry
      obtain ⟨hhead, hrest⟩ := List.forall_mem_cons.1 hset
      rw [mergeFields]
      split
      · exact ih hrest h
      · have hstore : C (store target key (mergeValue v (target.get? key)).value) := by
          cases hvalue : (mergeValue v (target.get? key)).value with
          | none => exact h
          | some w => exact hhead target w h (mergesTo_mergeValue hvalue)
        dsimp only
        split
        · exact ih hrest hstore
        · exact hstore

/-- Merging one document into another keeps a condition on the objects in it. -/
theorem throughout_merge (hkept : KeptBy Q P) {source target : Fields}
    (hsource : (Json.obj source).Throughout Q) (htarget : (Json.obj target).Throughout P) :
    (Json.obj (mergeFields source target).value).Throughout P :=
  throughout_mergeFields hkept source hsource.1 (fun _ h => h) hsource.2 htarget

end Document

end ApiTypings
