import ApiTypings.Proofs.Document.Frame
import ApiTypings.Proofs.Document.Nameable

/-!
The members of one name.

If documents list members under a key, each of them named by text, then merging the documents, one
after another, gathers the members: the merged list has each name once, in the place of its first
mention, and the member of a name is the merge of all members that were listed by it, in order.
Nothing in between matters, neither a document without the key nor an empty list.
-/

namespace ApiTypings

/-- The name of an object that is named by text. -/
def Json.textName? (v : Json) : Option String :=
  v.fields?.bind fun fields => (fields.get? "name").bind Json.text?

/-- A list, which may be empty, of objects that are named by text. -/
def Json.IsTextNamed (v : Json) : Prop :=
  ∃ items, v = .arr items ∧ ∀ item ∈ items, item.textName?.isSome

theorem Json.nameKey?_eq_text {v : Json} {s : String} :
    v.nameKey? = some (.text s) ↔ v = .str s := by
  cases v with
  | float x => cases hx : x.toInt? <;> simp [nameKey?, hx]
  | _ => simp [nameKey?]

theorem eraseDups_map {α β : Type} [BEq α] [LawfulBEq α] [BEq β] [LawfulBEq β] {f : α → β}
    (hf : Function.Injective f) (xs : List α) : (xs.map f).eraseDups = xs.eraseDups.map f := by
  induction xs using List.reverseRecOn with
  | nil => rfl
  | append_singleton xs x ih =>
      rw [List.map_append, List.map_singleton, eraseDups_concat, eraseDups_concat, ih,
        if_congr (List.mem_map_of_injective hf) rfl rfl]
      split
      · rfl
      · rw [List.map_append, List.map_singleton]

namespace Document

open Success

/-- Everything that documents list under a key, in order. -/
def listed (docs : List Fields) (key : String) : List Json :=
  (docs.filterMap fun doc => itemsOf? (doc.get? key)).flatten

/-- The objects of a name, in order. -/
def ofName (name : String) (items : List Json) : List Fields :=
  (membersOf (.text name) items).filterMap Json.fields?

/-- A member of a name which is the merge of all objects of that name, one after another. -/
def Gathered (items : List Json) (name : String) (member : Json) : Prop :=
  ∃ fields : Fields, member = .obj fields ∧ fields.get? "name" = some (.str name) ∧
    mergeAll (ofName name items) = .ok fields

theorem keyOf?_eq_text {v : Json} {name : String} :
    keyOf? v = some (.text name) ↔ v.textName? = some name := by
  cases v with
  | obj fields =>
      rw [keyOf?, memberKey?, Json.textName?, Json.fields?, Option.bind_some]
      cases Fields.get? fields "name" with
      | none => simp
      | some w =>
        rw [Option.bind_some, Option.bind_some, Json.nameKey?_eq_text]
        cases w <;> simp [Json.text?]
  | _ => simp [keyOf?, Json.textName?, Json.fields?]

/-- All that has a name is an object. -/
theorem map_ofName (name : String) (items : List Json) :
    (ofName name items).map .obj = membersOf (.text name) items := by
  rw [ofName]
  induction items with
  | nil => rfl
  | cons v rest ih =>
      rw [membersOf_cons]
      split
      next hkey =>
        cases v with
        | obj fields => rw [List.filterMap_cons, Json.fields?, List.map_cons, ih]
        | _ => cases hkey
      · exact ih

theorem isMember_of_textName? {v : Json} (h : v.textName?.isSome) : isMember v = true := by
  cases v with
  | obj fields =>
      rw [Json.textName?, Json.fields?, Option.bind_some] at h
      rw [isMember, Fields.has]
      cases hname : Fields.get? fields "name" with
      | none => simp [hname] at h
      | some w => rfl
  | _ => cases h

/-- The names of objects that are named by text are those texts. -/
theorem filterMap_keyOf? {items : List Json} (h : ∀ item ∈ items, item.textName?.isSome) :
    items.filterMap keyOf? = (items.filterMap Json.textName?).map .text := by
  rw [List.map_filterMap]
  refine List.filterMap_congr fun item hitem => ?_
  obtain ⟨name, hname⟩ := Option.isSome_iff_exists.1 (h item hitem)
  rw [keyOf?_eq_text.2 hname, hname]
  rfl

theorem gathered_of_mergeMembers {items members : List Json} (hlist : items.all isMember = true)
    (hkeys : ∀ v ∈ items, v.WellKeyed) (h : mergeMembers items [] = ⟨members, none⟩)
    {name : String} {member : Json} (hmember : memberAt? (.text name) members = some member) :
    Gathered items name member := by
  have hkey := keyOf?_of_memberAt? hmember
  have hsettled := settleAll_memberAt? hlist hkeys h (.text name)
  have hnamed : ofName name items ≠ [] := by
    intro hnil
    rw [← map_ofName, hnil, hmember] at hsettled
    cases hsettled
  rw [← map_ofName, settleAll_objects _ hnamed, hmember] at hsettled
  obtain ⟨fields, hfields, hobj⟩ := map_eq_ok.1 hsettled
  obtain rfl := Option.some.inj hobj
  obtain ⟨v, hv, hname⟩ := Option.bind_eq_some_iff.1 hkey
  exact ⟨fields, rfl, Json.nameKey?_eq_text.1 hname ▸ hv, hfields⟩

/-- A list that was merged from nothing has each name once, in the order of first mention. -/
theorem forall₂_gathered {items members : List Json}
    (hnames : ∀ item ∈ items, item.textName?.isSome) (hkeys : ∀ v ∈ items, v.WellKeyed)
    (h : mergeMembers items [] = ⟨members, none⟩) :
    List.Forall₂ (Gathered items) (items.filterMap Json.textName?).eraseDups members := by
  have hlist : items.all isMember = true :=
    List.all_eq_true.2 fun item hitem => isMember_of_textName? (hnames item hitem)
  have hframe : frame members =
      (items.filterMap Json.textName?).eraseDups.map fun name => .inr (.text name) := by
    have htext : Function.Injective NameKey.text := fun _ _ h => NameKey.text.inj h
    rw [frame_of_mergeMembers hlist hkeys h, filterMap_keyOf? hnames, eraseDups_map htext,
      List.map_map]
    rfl
  have hfills := fills_frame members
  rw [hframe, List.forall₂_map_left_iff] at hfills
  exact hfills.imp fun name member hmember => gathered_of_mergeMembers hlist hkeys h hmember

/-! ### The lists under a key -/

theorem offersOf_ne_nil {docs : List Fields} {key : String} (hkey : key ≠ skippedField) :
    offersOf docs key ≠ [] ↔ ∃ doc ∈ docs, (doc.get? key).isSome := by
  rw [offersOf, Ne, List.filterMap_eq_nil_iff]
  simp [offer, hkey, Option.isSome_iff_ne_none]

theorem offersOf_eq_map {docs : List Fields} {key : String} (hkey : key ≠ skippedField)
    (hlists : ∀ doc ∈ docs, ∀ v, doc.get? key = some v → v.IsTextNamed) :
    offersOf docs key = (docs.filterMap fun doc => itemsOf? (doc.get? key)).map .arr := by
  rw [List.map_filterMap]
  refine List.filterMap_congr fun doc hdoc => ?_
  rw [offer, if_neg hkey]
  cases hv : doc.get? key with
  | none => rfl
  | some v =>
      obtain ⟨items, rfl, -⟩ := hlists doc hdoc v hv
      rfl

theorem mem_listed {docs : List Fields} {key : String} {item : Json} (h : item ∈ listed docs key) :
    ∃ doc ∈ docs, ∃ items, doc.get? key = some (.arr items) ∧ item ∈ items := by
  obtain ⟨items, hitems, hitem⟩ := List.mem_flatten.1 h
  obtain ⟨doc, hdoc, hfound⟩ := List.mem_filterMap.1 hitems
  refine ⟨doc, hdoc, items, ?_, hitem⟩
  unfold itemsOf? at hfound
  split at hfound
  next hv => rw [hv, Option.some.inj hfound]
  · cases hfound

/-- Members that documents list under a key are gathered by name. -/
theorem get?_mergeAll_listed {docs : List Fields} {key : String} (hkey : key ≠ skippedField)
    (hkeys : ∀ doc ∈ docs, (Json.obj doc).WellKeyed)
    (hlists : ∀ doc ∈ docs, ∀ v, doc.get? key = some v → v.IsTextNamed) :
    (∀ final, mergeAll docs = .ok final →
      ((final.get? key).isSome ↔ ∃ doc ∈ docs, (doc.get? key).isSome) ∧
        ∀ v, final.get? key = some v → ∃ members, v = .arr members ∧
          List.Forall₂ (Gathered (listed docs key))
            ((listed docs key).filterMap Json.textName?).eraseDups members) ∧
      ((∀ doc ∈ docs, (Json.obj doc).Nameable) → ∃ final, mergeAll docs = .ok final) := by
  refine ⟨fun final hfinal => ?_, fun hnames => ?_⟩
  · have hsettled := (mergeOnto_by_key (fun doc hdoc => (hkeys doc hdoc).1) []).2 final hfinal key
    have hpresent := isSome_of_settleAll hsettled
    simp only [Fields.get?_nil, Option.isSome_none, Bool.false_eq_true, false_or,
      offersOf_ne_nil hkey] at hpresent
    refine ⟨hpresent, fun v hv => ?_⟩
    have hitems (item : Json) (hitem : item ∈ listed docs key) :
        item.textName?.isSome ∧ item.WellKeyed := by
      obtain ⟨doc, hdoc, items, hfound, hitem⟩ := mem_listed hitem
      obtain ⟨items', heq, htext⟩ := hlists doc hdoc _ hfound
      obtain rfl := Json.arr.inj heq
      have hvalue := (Json.throughout_obj.1 (hkeys doc hdoc)).2 _ (Fields.mem_of_get? hfound)
      exact ⟨htext item hitem, Json.throughout_arr.1 hvalue item hitem⟩
    rw [offersOf_eq_map hkey hlists, hv] at hsettled
    have hne : (docs.filterMap fun doc => itemsOf? (doc.get? key)) ≠ [] := by
      intro hnil
      rw [hnil] at hsettled
      cases hsettled
    have hmember (list : List Json)
        (hlist : list ∈ docs.filterMap fun doc => itemsOf? (doc.get? key)) :
        list.all isMember = true :=
      List.all_eq_true.2 fun item hitem => isMember_of_textName?
        (hitems item (List.mem_flatten.2 ⟨list, hlist, hitem⟩)).1
    obtain ⟨members, hmerge, hobj⟩ := mergeMembers_of_settleAll hne hmember hsettled
    exact ⟨members, Option.some.inj hobj, forall₂_gathered (fun item hitem => (hitems item hitem).1)
      (fun item hitem => (hitems item hitem).2) hmerge⟩
  · obtain ⟨final, hfinal, -⟩ := mergeOnto_nameable hkeys hnames nameable_empty
    exact ⟨final, hfinal⟩

/-- Records that list methods, with a name that comes back, an empty list and a record without. -/
def scatteredRecords : List Fields :=
  [[("name", .str "A")],
    [("methods", .arr
      [.obj [("name", .str "m"), ("summary", .str "First.")], .obj [("name", .str "n")],
        .obj [("returns", .str "Number"), ("name", .str "m")]])],
    [("methods", .arr [])],
    [("methods", .arr [.obj [("name", .str "o")], .obj [("name", .str "n"), ("since", .int 1)]])]]

theorem get?_mergeAll_listed_scatteredRecords :
    ("methods" ≠ skippedField ∧ (∀ doc ∈ scatteredRecords, (Json.obj doc).WellKeyed) ∧
        ∀ doc ∈ scatteredRecords, ∀ v, Fields.get? doc "methods" = some v → v.IsTextNamed) ∧
      (∀ doc ∈ scatteredRecords, (Json.obj doc).Nameable) ∧
      ∃ final members, mergeAll scatteredRecords = .ok final ∧
        Fields.get? final "methods" = some (.arr members) ∧
        List.Forall₂ (Gathered (listed scatteredRecords "methods")) ["m", "n", "o"] members := by
  have hkey : "methods" ≠ skippedField := by decide
  have hkeys : ∀ doc ∈ scatteredRecords, (Json.obj doc).WellKeyed := by
    simp [scatteredRecords, Json.WellKeyed, Json.Throughout, Json.ThroughoutItems,
      Json.ThroughoutValues, Fields.keys]
  have hlists : ∀ doc ∈ scatteredRecords, ∀ v, Fields.get? doc "methods" = some v →
      v.IsTextNamed := by
    simp [scatteredRecords, Json.IsTextNamed, Json.textName?, Json.fields?, Json.text?]
  have hnames : ∀ doc ∈ scatteredRecords, (Json.obj doc).Nameable := by
    simp [scatteredRecords, Json.Nameable, Json.EveryList, Json.EveryListInItems,
      Json.EveryListInValues, isUnnameable, memberKey?, Json.nameKey?]
  obtain ⟨hmerged, hok⟩ := get?_mergeAll_listed hkey hkeys hlists
  obtain ⟨final, hfinal⟩ := hok hnames
  obtain ⟨hpresent, hmembers⟩ := hmerged final hfinal
  have hthere : ∃ doc ∈ scatteredRecords, (Fields.get? doc "methods").isSome :=
    ⟨[("methods", .arr [])], by simp [scatteredRecords], rfl⟩
  obtain ⟨v, hv⟩ := Option.isSome_iff_exists.1 (hpresent.2 hthere)
  obtain ⟨members, rfl, hgathered⟩ := hmembers v hv
  exact ⟨⟨hkey, hkeys, hlists⟩, hnames, final, members, hfinal, hv, hgathered⟩

/-- A record that lists a member under the skipped field. -/
def globalRecords : List Fields := [[("global", .arr [.obj [("name", .str "a")]])]]

/-- What is listed under the skipped field is lost. -/
theorem listed_lost_globalRecords :
    (∀ doc ∈ globalRecords, (Json.obj doc).WellKeyed) ∧
      (∀ doc ∈ globalRecords, ∀ v, Fields.get? doc "global" = some v → v.IsTextNamed) ∧
      (listed globalRecords "global").filterMap Json.textName? = ["a"] ∧
      ∃ final, mergeAll globalRecords = .ok final ∧ Fields.get? final "global" = none := by
  refine ⟨?_, ?_, rfl, [], rfl, rfl⟩
  · simp [globalRecords, Json.WellKeyed, Json.Throughout, Json.ThroughoutItems,
      Json.ThroughoutValues, Fields.keys]
  · simp [globalRecords, Json.IsTextNamed, Json.textName?, Json.fields?, Json.text?]

end Document

end ApiTypings
