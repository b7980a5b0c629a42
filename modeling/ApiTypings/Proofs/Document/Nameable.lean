import ApiTypings.Proofs.Document.Place
import ApiTypings.Proofs.Json.Parts

/-!
Lists in which every name can be compared.

A merge looks at the names of the objects in a list, and at no others. If each of those names can be
compared, in every list of the documents, then nothing cuts a merge short, and the merged document
is of that sort again.
-/

namespace ApiTypings

/-- A value in which each object in a list has a name that can be compared, if it has a name. -/
def Json.Nameable (v : Json) : Prop :=
  v.EveryList fun items => items.any Document.isUnnameable = false

namespace Document

open Success

/-- A value that can be merged into every place and copied, without a name that cannot be compared
coming in. -/
structure Merges (v : Json) : Prop where
  place : ∀ current : Option Json, (∀ w, current = some w → w.Nameable) →
    ∃ w, settle current v = .ok (some w) ∧ w.Nameable
  copy : ∃ w, copyValue v = .ok w ∧ w.Nameable ∧ (isUnnameable v = false → isUnnameable w = false)

theorem nameable_arr {items : List Json} :
    (Json.arr items).Nameable ↔ ∀ v ∈ items, isUnnameable v = false ∧ v.Nameable := by
  rw [Json.Nameable, Json.everyList_arr, List.any_eq_false, ← forall₂_and]
  simp only [Bool.not_eq_true]
  rfl

theorem nameable_empty : (Json.obj []).Nameable := Json.everyList_obj.2 (by simp)

theorem nameable_get? {target : Fields} (h : (Json.obj target).Nameable) {key : String} :
    ∀ w, target.get? key = some w → w.Nameable :=
  fun _ hw => Json.everyList_obj.1 h _ (Fields.mem_of_get? hw)

theorem mergeFields_nameable {fields target : Fields} (h : ∀ entry ∈ fields, Merges entry.2)
    (htarget : (Json.obj target).Nameable) :
    ∃ doc, mergeFields fields target = ⟨doc, none⟩ ∧ (Json.obj doc).Nameable := by
  induction fields generalizing target with
  | nil => exact ⟨target, rfl, htarget⟩
  | cons entry rest ih =>
      obtain ⟨key, v⟩ := entry
      obtain ⟨hv, hrest⟩ := List.forall_mem_cons.1 h
      rw [mergeFields]
      split
      · exact ih hrest htarget
      · obtain ⟨w, hsettle, hw⟩ := hv.place _ (nameable_get? htarget)
        obtain ⟨hfault, hvalue⟩ := settle_eq_ok.1 hsettle
        have hstore :
            (Json.obj (store target key (mergeValue v (target.get? key)).value)).Nameable := by
          cases hnew : (mergeValue v (target.get? key)).value with
          | none => exact htarget
          | some new =>
              rw [hnew, Option.some_or, Option.some.injEq] at hvalue
              subst hvalue
              refine Json.everyList_obj.2 ?_
              rintro ⟨k, x⟩ hx
              rcases Fields.mem_set hx with hx | ⟨-, rfl⟩
              · exact Json.everyList_obj.1 htarget _ hx
              · exact hw
        dsimp only
        rw [hfault]
        exact ih hrest hstore

theorem mem_placeMember {merge : Fields → Merged Fields} {key : NameKey} {members : List Json}
    {doc : Fields} {v : Json} (hmerge : merge (fieldsOf (memberAt? key members)) = ⟨doc, none⟩)
    (h : v ∈ (placeMember merge key members).value) : v ∈ members ∨ v = .obj doc := by
  fun_induction placeMember merge key members with
  | case1 r =>
      have hr : r = ⟨doc, none⟩ := hmerge
      simpa [hr] using h
  | case2 fields rest hfields r =>
      have hr : r = ⟨doc, none⟩ := by
        simpa [memberAt?_cons, keyOf?, hfields, fieldsOf] using hmerge
      rw [hr] at h
      exact (List.mem_cons.1 h).symm.imp_left (List.mem_cons_of_mem _)
  | case3 fields rest hfields r ih =>
      rcases List.mem_cons.1 h with rfl | h
      · exact .inl List.mem_cons_self
      · refine (ih ?_ h).imp_left (List.mem_cons_of_mem _)
        simpa [memberAt?_cons, keyOf?, hfields] using hmerge
  | case4 w rest hw r ih =>
      rcases List.mem_cons.1 h with rfl | h
      · exact .inl List.mem_cons_self
      · refine (ih ?_ h).imp_left (List.mem_cons_of_mem _)
        simpa [memberAt?_cons, keyOf?_eq_none hw] using hmerge

theorem mergeMembers_nameable {items members : List Json} (hlist : items.all isMember = true)
    (hkeys : ∀ v ∈ items, v.WellKeyed) (hnames : ∀ v ∈ items, isUnnameable v = false)
    (h : ∀ v ∈ items, Merges v) (hmembers : (Json.arr members).Nameable) :
    ∃ merged, mergeMembers items members = ⟨merged, none⟩ ∧ (Json.arr merged).Nameable := by
  induction items generalizing members with
  | nil => exact ⟨members, rfl, hmembers⟩
  | cons v rest ih =>
      obtain ⟨hkeysv, hkeys'⟩ := List.forall_mem_cons.1 hkeys
      obtain ⟨hnamev, hnames'⟩ := List.forall_mem_cons.1 hnames
      obtain ⟨hv, hrest⟩ := List.forall_mem_cons.1 h
      obtain ⟨hmember, hothers⟩ := Bool.and_eq_true_iff.1 hlist
      cases v with
      | obj fields =>
          obtain ⟨key, hkey⟩ : ∃ key, memberKey? fields = some key := by
            have hname : Fields.has fields "name" = true := hmember
            simpa [isUnnameable, hname, ← Option.isSome_iff_ne_none, Option.isSome_iff_exists]
              using hnamev
          have hthere (w : Json) (hw : memberAt? key members = some w) : w.Nameable :=
            (nameable_arr.1 hmembers w (List.mem_of_find?_eq_some hw)).2
          obtain ⟨w, hsettle, hw⟩ := hv.place _ hthere
          rw [settle_obj] at hsettle
          obtain ⟨doc, hdoc, hw'⟩ := map_eq_ok.1 hsettle
          obtain rfl := Option.some.inj hw'
          have hmerge := mergeInto_eq_ok_iff_merged.1 hdoc
          have hnamed := memberKey?_of_merged hkeysv.1 hkey hmerge
          rw [mergeMembers, hkey]
          dsimp only
          rw [placeMember_fault_eq, hmerge]
          refine ih hothers hkeys' hnames' hrest (nameable_arr.2 fun x hx => ?_)
          rcases mem_placeMember hmerge hx with hx | rfl
          · exact nameable_arr.1 hmembers x hx
          · exact ⟨by simp [isUnnameable, hnamed], hw⟩
      | _ => simp [isMember] at hmember

theorem copyItems_nameable {items : List Json} (h : ∀ v ∈ items, Merges v)
    (hnames : ∀ v ∈ items, isUnnameable v = false) :
    ∃ copied, copyItems items = .ok copied ∧ (Json.arr copied).Nameable := by
  induction items with
  | nil => exact ⟨[], rfl, nameable_arr.2 (by simp)⟩
  | cons v rest ih =>
      obtain ⟨hv, hrest⟩ := List.forall_mem_cons.1 h
      obtain ⟨hname, hnames⟩ := List.forall_mem_cons.1 hnames
      obtain ⟨w, hw, hnameable, hkept⟩ := hv.copy
      obtain ⟨others, hothers, hcopied⟩ := ih hrest hnames
      refine ⟨w :: others, by rw [copyItems, hw, hothers]; rfl, nameable_arr.2 ?_⟩
      exact List.forall_mem_cons.2 ⟨⟨hkept hname, hnameable⟩, nameable_arr.1 hcopied⟩

theorem isUnnameable_mergeFields {fields doc : Fields} (hkeys : fields.keys.Nodup)
    (hmerge : mergeFields fields [] = ⟨doc, none⟩) (h : isUnnameable (.obj fields) = false) :
    isUnnameable (.obj doc) = false := by
  have hok : (mergeFields fields []).fault = none := by rw [hmerge]
  cases hname : Fields.get? fields "name" with
  | none =>
      have hget := (mergeFields_by_key hkeys []).2 hok "name"
      rw [offer, if_neg (by decide), hname, hmerge] at hget
      have hnone : Fields.get? doc "name" = none := hget
      simp [isUnnameable, Fields.has, hnone]
  | some v =>
      obtain ⟨key, hkey⟩ : ∃ key, memberKey? fields = some key := by
        simpa [isUnnameable, Fields.has, hname, ← Option.isSome_iff_ne_none,
          Option.isSome_iff_exists] using h
      simp [isUnnameable, memberKey?_of_merged hkeys hkey hmerge]

theorem merges_obj {fields : Fields} (hkeys : fields.keys.Nodup)
    (h : ∀ entry ∈ fields, Merges entry.2) : Merges (.obj fields) where
  place current hcurrent := by
    have hold : (Json.obj (fieldsOf current)).Nameable := by
      unfold fieldsOf
      split
      · exact hcurrent _ rfl
      · exact nameable_empty
    obtain ⟨doc, hmerge, hdoc⟩ := mergeFields_nameable h hold
    refine ⟨.obj doc, ?_, hdoc⟩
    rw [settle_obj, mergeInto_eq_ok_iff_merged.2 hmerge]
    rfl
  copy := by
    obtain ⟨doc, hmerge, hdoc⟩ := mergeFields_nameable h nameable_empty
    refine ⟨.obj doc, ?_, hdoc, isUnnameable_mergeFields hkeys hmerge⟩
    rw [copyValue, hmerge]

theorem merges_arr {items : List Json} (hkeys : ∀ v ∈ items, v.WellKeyed)
    (hnames : ∀ v ∈ items, isUnnameable v = false) (h : ∀ v ∈ items, Merges v) :
    Merges (.arr items) := by
  obtain ⟨copied, hcopied, hnameable⟩ := copyItems_nameable h hnames
  have hcopy : copyValue (.arr items) = .ok (.arr copied) := by rw [copyValue, hcopied]; rfl
  refine ⟨fun current hcurrent => ?_, .arr copied, hcopy, hnameable, fun _ => rfl⟩
  cases hlist : items.all isMember with
  | true =>
      have hold : (Json.arr ((itemsOf? current).getD [])).Nameable := by
        unfold itemsOf?
        split
        · exact hcurrent _ rfl
        · exact nameable_arr.2 (by simp)
      obtain ⟨merged, hmerge, hmerged⟩ := mergeMembers_nameable hlist hkeys hnames h hold
      exact ⟨.arr merged, (settle_list hlist).2
        ⟨.inr (Json.everyList_arr.1 hold).1, merged, hmerge, rfl⟩, hmerged⟩
  | false =>
      refine ⟨.arr copied, ?_, hnameable⟩
      rw [settle_of_replaces (v := .arr items) hlist, hcopy]
      rfl

/-- A value with names that can be compared can be merged into every place of that sort. -/
theorem merges_of_nameable (v : Json) : v.WellKeyed → v.Nameable → Merges v := by
  induction v using Json.ofParts with
  | obj fields ih =>
      intro hkeys hnames
      obtain ⟨hnodup, hvalues⟩ := Json.throughout_obj.1 hkeys
      exact merges_obj hnodup fun entry hentry =>
        ih entry hentry (hvalues entry hentry) (Json.everyList_obj.1 hnames entry hentry)
  | arr items ih =>
      intro hkeys hnames
      have hitems := Json.throughout_arr.1 hkeys
      have hparts := nameable_arr.1 hnames
      exact merges_arr hitems (fun w hw => (hparts w hw).1) fun w hw =>
        ih w hw (hitems w hw) (hparts w hw).2
  | name v hv =>
      intro _ hnames
      exact ⟨fun current _ => ⟨v, settle_of_nameKey? hv current, hnames⟩,
        v, copyValue_of_nameKey? hv, hnames, id⟩

theorem mergeInto_nameable {source target : Fields} (hkeys : (Json.obj source).WellKeyed)
    (hnames : (Json.obj source).Nameable) (htarget : (Json.obj target).Nameable) :
    ∃ doc, mergeInto target source = .ok doc ∧ (Json.obj doc).Nameable := by
  obtain ⟨w, hsettle, hw⟩ := (merges_of_nameable _ hkeys hnames).place (some (.obj target))
    fun w hw => Option.some.inj hw ▸ htarget
  rw [settle_obj] at hsettle
  obtain ⟨doc, hdoc, hobj⟩ := map_eq_ok.1 hsettle
  exact ⟨doc, hdoc, Option.some.inj hobj ▸ hw⟩

/-- Documents with names that can be compared can be merged, one after another. -/
theorem mergeOnto_nameable {docs : List Fields} {target : Fields}
    (hkeys : ∀ doc ∈ docs, (Json.obj doc).WellKeyed)
    (hnames : ∀ doc ∈ docs, (Json.obj doc).Nameable) (htarget : (Json.obj target).Nameable) :
    ∃ doc, mergeOnto target docs = .ok doc ∧ (Json.obj doc).Nameable := by
  induction docs generalizing target with
  | nil => exact ⟨target, rfl, htarget⟩
  | cons first rest ih =>
      obtain ⟨hfirst, hkeys⟩ := List.forall_mem_cons.1 hkeys
      obtain ⟨hnamed, hnames⟩ := List.forall_mem_cons.1 hnames
      obtain ⟨next, hnext, hnameable⟩ := mergeInto_nameable hfirst hnamed htarget
      obtain ⟨doc, hdoc, hmerged⟩ := ih hkeys hnames hnameable
      refine ⟨doc, ?_, hmerged⟩
      rw [mergeOnto_cons]
      exact bind_eq_ok.2 ⟨next, hnext, hdoc⟩

end Document

end ApiTypings
