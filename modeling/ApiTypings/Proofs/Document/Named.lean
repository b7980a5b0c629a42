import ApiTypings.Proofs.Document.Depth

/-!
What can end a merge.

A merge compares members by their names, and a name that cannot be compared is all that can end it.
There is none if whatever stands under `name`, in any object of the documents that are merged, is a
text. The merged document is of that sort again, so that merging can go on with it.
-/

namespace ApiTypings

/-- An object whose name, if it has one, is a text that is not empty. -/
def Fields.NamedByText (fields : Fields) : Prop :=
  ∀ v, ("name", v) ∈ fields → ∃ s, s ≠ "" ∧ v = .str s

/-- A value in which every object is named by text, if at all. -/
def Json.NamedByText (v : Json) : Prop := v.Throughout Fields.NamedByText

theorem Json.namedByText_obj_nil : (Json.obj []).NamedByText :=
  Json.throughout_obj.2 ⟨fun _ h => absurd h List.not_mem_nil, by simp⟩

/-- Fewer fields are named by text as well. -/
theorem Json.NamedByText.tail {entry : String × Json} {rest : Fields}
    (h : (Json.obj (entry :: rest)).NamedByText) : (Json.obj rest).NamedByText := by
  obtain ⟨hnamed, hvalues⟩ := Json.throughout_obj.1 h
  exact Json.throughout_obj.2 ⟨fun v hv => hnamed v (List.mem_cons_of_mem _ hv),
    fun e he => hvalues e (List.mem_cons_of_mem _ he)⟩

namespace Document

theorem keptBy_namedByText : KeptBy Fields.NamedByText Fields.NamedByText where
  empty v h := absurd h List.not_mem_nil
  set {source target key v w} hsource hmem _ htarget hform := by
    intro x hx
    rcases Fields.mem_set hx with hx | ⟨rfl, rfl⟩
    · exact htarget x hx
    · obtain ⟨s, hs, rfl⟩ := hsource v hmem
      exact ⟨s, hs, hform⟩

theorem memberKey?_isSome {fields : Fields} (h : fields.NamedByText)
    (hname : Fields.has fields "name" = true) : ∃ key, memberKey? fields = some key := by
  obtain ⟨v, hv⟩ := Option.isSome_iff_exists.1 hname
  obtain ⟨s, -, rfl⟩ := h v (Fields.mem_of_get? hv)
  exact ⟨.text s, by rw [memberKey?, hv]; rfl⟩

theorem isUnnameable_of_named {v : Json} (h : v.NamedByText) : isUnnameable v = false := by
  cases v with
  | obj fields =>
      by_cases hname : Fields.has fields "name" = true
      · obtain ⟨key, hkey⟩ := memberKey?_isSome h.1 hname
        simp [isUnnameable, hkey]
      · simp [isUnnameable, hname]
  | _ => rfl

/-! ### The only fault -/

/-- A fault of placing a member is one of merging it, into a member that is there or into nothing.
-/
theorem placeMember_fault {merge : Fields → Merged Fields} {key : NameKey} {members : List Json}
    {fault : Fault} (h : (placeMember merge key members).fault = some fault) :
    ∃ target, (target = [] ∨ .obj target ∈ members) ∧ (merge target).fault = some fault := by
  fun_induction placeMember merge key members with
  | case1 r => exact ⟨[], .inl rfl, h⟩
  | case2 fields rest hkey r => exact ⟨fields, .inr List.mem_cons_self, h⟩
  | case3 fields rest hkey r ih =>
      obtain ⟨target, htarget, hfault⟩ := ih h
      exact ⟨target, htarget.imp_right (List.mem_cons_of_mem _), hfault⟩
  | case4 v rest hv r ih =>
      obtain ⟨target, htarget, hfault⟩ := ih h
      exact ⟨target, htarget.imp_right (List.mem_cons_of_mem _), hfault⟩

mutual

theorem mergeFields_fault : ∀ (fields : List (String × Json)) {target : Fields} {fault : Fault},
    (mergeFields fields target).fault = some fault →
      fault = .notAName ∧ ¬((Json.obj fields).NamedByText ∧ (Json.obj target).NamedByText)
  | [], _, _ => by simp [mergeFields]
  | (key, v) :: rest, target, fault => by
      intro h
      rw [mergeFields] at h
      split at h
      · obtain ⟨hfault, hnot⟩ := mergeFields_fault rest h
        exact ⟨hfault, fun hboth => hnot ⟨hboth.1.tail, hboth.2⟩⟩
      next hkey =>
        dsimp only at h
        split at h
        · -- The first field was merged, so the target of the others is named by text as well.
          obtain ⟨hfault, hnot⟩ := mergeFields_fault rest h
          refine ⟨hfault, fun ⟨hsource, htarget⟩ => hnot ⟨hsource.tail, ?_⟩⟩
          obtain ⟨hnamed, hvalues⟩ := Json.throughout_obj.1 hsource
          refine throughout_store keptBy_namedByText hnamed List.mem_cons_self hkey htarget ?_
          exact throughout_mergeValue keptBy_namedByText v (hvalues _ List.mem_cons_self)
            fun w hw => (Json.throughout_obj.1 htarget).2 _ (Fields.mem_of_get? hw)
        next hfault =>
          obtain rfl := Option.some.inj h
          obtain ⟨hfault, hnot⟩ := mergeValue_fault v hfault
          refine ⟨hfault, fun ⟨hsource, htarget⟩ => hnot ⟨?_, ?_⟩⟩
          · exact (Json.throughout_obj.1 hsource).2 _ List.mem_cons_self
          · exact fun w hw => (Json.throughout_obj.1 htarget).2 _ (Fields.mem_of_get? hw)

theorem mergeValue_fault : ∀ (v : Json) {current : Option Json} {fault : Fault},
    (mergeValue v current).fault = some fault →
      fault = .notAName ∧ ¬(v.NamedByText ∧ ∀ w, current = some w → w.NamedByText)
  | .obj fields, current, fault => by
      intro h
      obtain ⟨hfault, hnot⟩ := mergeFields_fault fields h
      refine ⟨hfault, fun ⟨hv, hcurrent⟩ => hnot ⟨hv, ?_⟩⟩
      unfold fieldsOf
      split
      · exact hcurrent _ rfl
      · exact Json.namedByText_obj_nil
  | .arr items, current, fault => by
      intro h
      have hold (hcurrent : ∀ w, current = some w → w.NamedByText) :
          ∀ m ∈ (itemsOf? current).getD [], m.NamedByText := by
        unfold itemsOf?
        split
        · exact Json.throughout_arr.1 (hcurrent _ rfl)
        · simp
      rw [mergeValue] at h
      dsimp only at h
      split at h
      next hlist =>
        split at h
        next hany =>
          obtain rfl := Option.some.inj h
          refine ⟨rfl, fun ⟨_, hcurrent⟩ => ?_⟩
          -- All names that are there already are looked at first.
          obtain ⟨m, hm, hname⟩ := List.any_eq_true.1 hany
          simp [isUnnameable_of_named (hold hcurrent m hm)] at hname
        · split at h
          · simp at h
          next hfault =>
            obtain rfl := Option.some.inj h
            have hitems : items.all isMember = true := (Bool.and_eq_true_iff.1 hlist).2
            obtain ⟨hfault, hnot⟩ := mergeMembers_fault items hitems hfault
            exact ⟨hfault, fun ⟨hv, hcurrent⟩ =>
              hnot ⟨Json.throughout_arr.1 hv, hold hcurrent⟩⟩
      · split at h
        · simp at h
        · split at h
          · simp at h
          next hcopied =>
            obtain rfl := Option.some.inj h
            obtain ⟨hfault, hnot⟩ := copyItems_fault items hcopied
            exact ⟨hfault, fun ⟨hv, _⟩ => hnot (Json.throughout_arr.1 hv)⟩
  | .null, _, _ => by simp [mergeValue]
  | .bool _, _, _ => by simp [mergeValue]
  | .int _, _, _ => by simp [mergeValue]
  | .float _, _, _ => by simp [mergeValue]
  | .str _, _, _ => by simp [mergeValue]

theorem mergeMembers_fault : ∀ (items : List Json) {members : List Json} {fault : Fault},
    items.all isMember = true → (mergeMembers items members).fault = some fault →
      fault = .notAName ∧ ¬((∀ v ∈ items, v.NamedByText) ∧ ∀ m ∈ members, m.NamedByText)
  | [], _, _ => by simp [mergeMembers]
  | .obj fields :: rest, members, fault => by
      intro hitems h
      obtain ⟨hmember, hitems⟩ := Bool.and_eq_true_iff.1 hitems
      rw [mergeMembers] at h
      split at h
      next hnone =>
        obtain rfl := Option.some.inj h
        refine ⟨rfl, fun ⟨hnamed, _⟩ => ?_⟩
        obtain ⟨key, hkey⟩ := memberKey?_isSome (hnamed _ List.mem_cons_self).1 hmember
        simp [hkey] at hnone
      next key hkey =>
        dsimp only at h
        split at h
        · obtain ⟨hfault, hnot⟩ := mergeMembers_fault rest hitems h
          refine ⟨hfault, fun ⟨hnamed, hmembers⟩ => hnot ⟨?_, ?_⟩⟩
          · exact fun v hv => hnamed v (List.mem_cons_of_mem _ hv)
          · exact throughout_placeMember keptBy_namedByText.empty (fun target htarget =>
              throughout_merge keptBy_namedByText (hnamed _ List.mem_cons_self) htarget)
              key hmembers
        next hplace =>
          obtain rfl := Option.some.inj h
          obtain ⟨target, htarget, hfault⟩ := placeMember_fault hplace
          obtain ⟨hfault, hnot⟩ := mergeFields_fault fields hfault
          refine ⟨hfault, fun ⟨hnamed, hmembers⟩ => hnot ⟨hnamed _ List.mem_cons_self, ?_⟩⟩
          rcases htarget with rfl | htarget
          · exact Json.namedByText_obj_nil
          · exact hmembers _ htarget
  | .arr _ :: _, _, _ => by simp [isMember]
  | .null :: _, _, _ => by simp [isMember]
  | .bool _ :: _, _, _ => by simp [isMember]
  | .int _ :: _, _, _ => by simp [isMember]
  | .float _ :: _, _, _ => by simp [isMember]
  | .str _ :: _, _, _ => by simp [isMember]

theorem copyValue_fault : ∀ (v : Json) {fault : Fault}, copyValue v = .error fault →
    fault = .notAName ∧ ¬v.NamedByText
  | .obj fields, fault => by
      intro h
      rw [copyValue] at h
      split at h
      · simp at h
      next hfault =>
        obtain rfl := Except.error.inj h
        obtain ⟨hfault, hnot⟩ := mergeFields_fault fields hfault
        exact ⟨hfault, fun hv => hnot ⟨hv, Json.namedByText_obj_nil⟩⟩
  | .arr items, fault => by
      intro h
      rw [copyValue] at h
      cases hcopied : copyItems items with
      | ok copied => simp [hcopied, Except.map] at h
      | error f =>
          obtain rfl : f = fault := by simpa [hcopied, Except.map] using h
          obtain ⟨hfault, hnot⟩ := copyItems_fault items hcopied
          exact ⟨hfault, fun hv => hnot (Json.throughout_arr.1 hv)⟩
  | .null, _ => by simp [copyValue]
  | .bool _, _ => by simp [copyValue]
  | .int _, _ => by simp [copyValue]
  | .float _, _ => by simp [copyValue]
  | .str _, _ => by simp [copyValue]

theorem copyItems_fault : ∀ (items : List Json) {fault : Fault}, copyItems items = .error fault →
    fault = .notAName ∧ ¬∀ v ∈ items, v.NamedByText
  | [], _ => by simp [copyItems]
  | v :: rest, fault => by
      intro h
      rw [copyItems] at h
      cases hv : copyValue v with
      | error f =>
          obtain rfl : f = fault := by simpa [hv] using h
          obtain ⟨hfault, hnot⟩ := copyValue_fault v hv
          exact ⟨hfault, fun hall => hnot (hall v List.mem_cons_self)⟩
      | ok w =>
          cases hrest : copyItems rest with
          | ok others => simp [hv, hrest, Except.map] at h
          | error f =>
              obtain rfl : f = fault := by simpa [hv, hrest, Except.map] using h
              obtain ⟨hfault, hnot⟩ := copyItems_fault rest hrest
              exact ⟨hfault, fun hall => hnot fun x hx => hall x (List.mem_cons_of_mem _ hx)⟩

end

/-- Documents in which names are texts can be merged, and the result is of their sort. -/
theorem merge_named {source target : Fields} (hsource : (Json.obj source).NamedByText)
    (htarget : (Json.obj target).NamedByText) :
    (mergeFields source target).fault = none ∧
      (Json.obj (mergeFields source target).value).NamedByText := by
  refine ⟨?_, throughout_merge keptBy_namedByText hsource htarget⟩
  cases hfault : (mergeFields source target).fault with
  | none => rfl
  | some fault => exact absurd ⟨hsource, htarget⟩ (mergeFields_fault source hfault).2

end Document

end ApiTypings
