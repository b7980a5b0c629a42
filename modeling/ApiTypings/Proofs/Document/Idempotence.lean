import ApiTypings.Proofs.Document.Frame
import ApiTypings.Proofs.Document.Nameable

/-!
Merging a document again.

Within one document a name may occur several times, with values of different shapes, so that what
was merged is replaced and merged afresh, and merging the document again goes through all of that
once more. The values merged into one place, one after another, either come to the same whatever
stood there, or are all objects, or are all lists of members; in the last two cases the same is to
be said of the smaller places in them. So nothing changes when they are merged again, by induction
on the size of the values.
-/

namespace ApiTypings

theorem Fields.nodup_keys_set {fields : Fields} (h : fields.keys.Nodup) (key : String) (v : Json) :
    (fields.set key v).keys.Nodup := by
  rw [keys_set]
  split
  · exact h
  next hkey =>
    refine List.nodup_append.2 ⟨h, by simp, ?_⟩
    rintro k hk other hother rfl
    exact hkey (List.mem_singleton.1 hother ▸ hk)

/-- Documents without repeated keys are equal if their keys and values are. -/
theorem Fields.eq_of_get? {a b : Fields} (hkeys : a.keys = b.keys) (hnodup : a.keys.Nodup)
    (h : ∀ key, a.get? key = b.get? key) : a = b := by
  induction a generalizing b with
  | nil =>
      cases b with
      | nil => rfl
      | cons entry rest => cases hkeys
  | cons entry rest ih =>
      cases b with
      | nil => cases hkeys
      | cons other others =>
          obtain ⟨k, v⟩ := entry
          obtain ⟨k', w⟩ := other
          obtain ⟨rfl, hrest⟩ := List.cons.inj hkeys
          have hrest : Fields.keys rest = Fields.keys others := hrest
          obtain ⟨hk, hnodup⟩ : k ∉ Fields.keys rest ∧ (Fields.keys rest).Nodup :=
            List.nodup_cons.1 hnodup
          have hhead := h k
          simp only [get?_cons, if_pos, Option.some.injEq] at hhead
          subst hhead
          have htail (key : String) : Fields.get? rest key = Fields.get? others key := by
            by_cases hkey : k = key
            · subst hkey
              rw [get?_of_not_mem_keys hk, get?_of_not_mem_keys (hrest ▸ hk)]
            · simpa [hkey] using h key
          rw [ih hrest hnodup htail]

namespace Document

open Success

variable {current : Option Json} {target doc : Fields}

/-! ### The keys of a merged document -/

theorem nodup_keys_mergeFields {source : Fields} (h : target.keys.Nodup) :
    (mergeFields source target).value.keys.Nodup :=
  mergeFields_keeps (C := fun fields => fields.keys.Nodup)
    (fun entry _ _ w hfields _ => Fields.nodup_keys_set hfields entry.1 w) h

/-- Merging what has no new key adds none. -/
theorem keys_mergeFields {source : Fields}
    (h : ∀ key ∈ source.keys, key ≠ skippedField → key ∈ target.keys) :
    (mergeFields source target).value.keys = target.keys := by
  induction source generalizing target with
  | nil => rfl
  | cons entry rest ih =>
      obtain ⟨key, v⟩ := entry
      obtain ⟨hkey, hrest⟩ := List.forall_mem_cons.1 h
      rw [mergeFields]
      split
      · exact ih hrest
      next hskipped =>
        have hstore (v? : Option Json) : (store target key v?).keys = target.keys := by
          cases v? with
          | none => rfl
          | some w => rw [store, Fields.keys_set, if_pos (hkey hskipped)]
        dsimp only
        split
        · rw [ih (by rwa [hstore]), hstore]
        · exact hstore _

theorem nodup_keys_mergeOnto {docs : List Fields} (hkeys : target.keys.Nodup)
    (h : mergeOnto target docs = .ok doc) : doc.keys.Nodup := by
  induction docs generalizing target with
  | nil => exact Except.ok.inj h ▸ hkeys
  | cons first rest ih =>
      rw [mergeOnto_cons] at h
      obtain ⟨next, hnext, h⟩ := bind_eq_ok.1 h
      have hfirst : (mergeFields first target).value.keys.Nodup := nodup_keys_mergeFields hkeys
      rw [mergeInto_eq_ok_iff_merged.1 hnext] at hfirst
      exact ih hfirst h

theorem keys_mergeOnto {docs : List Fields}
    (hkeys : ∀ source ∈ docs, ∀ key ∈ source.keys, key ≠ skippedField → key ∈ target.keys)
    (h : mergeOnto target docs = .ok doc) : doc.keys = target.keys := by
  induction docs generalizing target with
  | nil => exact Except.ok.inj h ▸ rfl
  | cons first rest ih =>
      obtain ⟨hfirst, hrest⟩ := List.forall_mem_cons.1 hkeys
      rw [mergeOnto_cons] at h
      obtain ⟨next, hnext, h⟩ := bind_eq_ok.1 h
      have hsame : next.keys = target.keys := by
        simpa only [mergeInto_eq_ok_iff_merged.1 hnext] using keys_mergeFields hfirst
      rw [ih (by rwa [hsame]) h, hsame]

/-! ### Sequences of values in one place -/

/-- What comes of the values does not depend on what stood in the place. -/
def Resets (vs : List Json) : Prop :=
  ∀ one two first second, settleAll one vs = .ok first → settleAll two vs = .ok second →
    first = second

theorem settleAll_concat_eq_ok {vs : List Json} {v : Json} {result : Option Json} :
    settleAll current (vs ++ [v]) = .ok result ↔
      ∃ next, settleAll current vs = .ok next ∧ settle next v = .ok result := by
  rw [settleAll_append, bind_eq_ok]
  simp only [settleAll_singleton]

theorem Resets.concat {vs : List Json} (h : Resets vs) (v : Json) : Resets (vs ++ [v]) := by
  intro one two first second hfirst hsecond
  obtain ⟨next, hnext, hfirst⟩ := settleAll_concat_eq_ok.1 hfirst
  obtain ⟨other, hother, hsecond⟩ := settleAll_concat_eq_ok.1 hsecond
  rw [h one two next other hnext hother, hsecond] at hfirst
  exact (Except.ok.inj hfirst).symm

theorem resets_of_replaces (vs : List Json) {v : Json} (h : Replaces v) : Resets (vs ++ [v]) := by
  intro one two first second hfirst hsecond
  obtain ⟨next, -, hfirst⟩ := settleAll_concat_eq_ok.1 hfirst
  obtain ⟨other, -, hsecond⟩ := settleAll_concat_eq_ok.1 hsecond
  rw [settle_of_replaces h] at hfirst hsecond
  exact Except.ok.inj (hfirst.symm.trans hsecond)

/-- An object behind lists starts afresh. -/
theorem resets_lists_concat {lists : List (List Json)} (hne : lists ≠ [])
    (hlists : ∀ items ∈ lists, items.all isMember = true) (fields : Fields) :
    Resets (lists.map .arr ++ [.obj fields]) := by
  intro one two first second hfirst hsecond
  obtain ⟨next, hnext, hfirst⟩ := settleAll_concat_eq_ok.1 hfirst
  obtain ⟨other, hother, hsecond⟩ := settleAll_concat_eq_ok.1 hsecond
  obtain ⟨members, -, rfl⟩ := mergeMembers_of_settleAll hne hlists hnext
  obtain ⟨others, -, rfl⟩ := mergeMembers_of_settleAll hne hlists hother
  rw [settle_obj] at hfirst hsecond
  exact Except.ok.inj (hfirst.symm.trans hsecond)

/-- A list behind objects starts afresh. -/
theorem resets_objects_concat {docs : List Fields} (hne : docs ≠ []) {items : List Json}
    (hlist : items.all isMember = true) : Resets (docs.map .obj ++ [.arr items]) := by
  intro one two first second hfirst hsecond
  obtain ⟨next, hnext, hfirst⟩ := settleAll_concat_eq_ok.1 hfirst
  obtain ⟨other, hother, hsecond⟩ := settleAll_concat_eq_ok.1 hsecond
  rw [settleAll_objects _ hne] at hnext hother
  obtain ⟨doc, -, rfl⟩ := map_eq_ok.1 hnext
  obtain ⟨otherDoc, -, rfl⟩ := map_eq_ok.1 hother
  obtain ⟨-, members, hmembers, rfl⟩ := (settle_list hlist).1 hfirst
  obtain ⟨-, others, hothers, rfl⟩ := (settle_list hlist).1 hsecond
  obtain rfl := congrArg Merged.value (hmembers.symm.trans hothers)
  rfl

/-- Values that depend on what stood in the place are all of one sort. -/
theorem resets_or_objects_or_lists (vs : List Json) :
    Resets vs ∨ (∃ docs : List Fields, vs = docs.map .obj) ∨
      ∃ lists : List (List Json), vs = lists.map .arr ∧
        ∀ items ∈ lists, items.all isMember = true := by
  induction vs using List.reverseRecOn with
  | nil => exact .inr (.inl ⟨[], rfl⟩)
  | append_singleton vs v ih =>
      rcases object_or_list_or_replaces v with ⟨fields, rfl⟩ | ⟨items, rfl, hlist⟩ | hv
      · rcases ih with h | ⟨docs, rfl⟩ | ⟨lists, rfl, hlists⟩
        · exact .inl (h.concat _)
        · exact .inr (.inl ⟨docs ++ [fields], by simp⟩)
        · by_cases hne : lists = []
          · exact .inr (.inl ⟨[fields], by simp [hne]⟩)
          · exact .inl (resets_lists_concat hne hlists fields)
      · rcases ih with h | ⟨docs, rfl⟩ | ⟨lists, rfl, hlists⟩
        · exact .inl (h.concat _)
        · by_cases hne : docs = []
          · exact .inr (.inr ⟨[items], by simp [hne], by simpa using hlist⟩)
          · exact .inl (resets_objects_concat hne hlist)
        · refine .inr (.inr ⟨lists ++ [items], by simp, fun other hother => ?_⟩)
          rcases List.mem_append.1 hother with h | h
          · exact hlists other h
          · exact List.mem_singleton.1 h ▸ hlist
      · exact .inl (resets_of_replaces vs hv)

/-! ### Merging twice -/

/-- Merging the values once more changes nothing. -/
def Stable (vs : List Json) : Prop :=
  ∀ current once twice, (∀ w, current = some w → w.WellKeyed) →
    settleAll current vs = .ok once → settleAll once vs = .ok twice → twice = once

theorem stable_objects {docs : List Fields} (hkeys : ∀ doc ∈ docs, doc.keys.Nodup)
    (h : ∀ key, Stable (offersOf docs key)) : Stable (docs.map .obj) := by
  intro current once twice hcurrent honce htwice
  by_cases hne : docs = []
  · subst hne
    exact (Except.ok.inj htwice).symm
  · rw [settleAll_objects _ hne] at honce
    obtain ⟨doc, hdoc, rfl⟩ := map_eq_ok.1 honce
    rw [settleAll_objects _ hne] at htwice
    obtain ⟨again, hagain, rfl⟩ := map_eq_ok.1 htwice
    have hold : (Json.obj (fieldsOf current)).WellKeyed := by
      unfold fieldsOf
      split
      · exact hcurrent _ rfl
      · exact wellKeyed_empty
    have hfirst := (mergeOnto_by_key hkeys _).2 doc hdoc
    have hsecond := (mergeOnto_by_key hkeys _).2 again hagain
    have hnodup := nodup_keys_mergeOnto hold.1 hdoc
    -- Whatever is offered under a key is there after the first time.
    have hsame : again.keys = doc.keys := by
      refine keys_mergeOnto (fun source hsource key hkey hskipped => ?_) hagain
      refine Fields.isSome_get?.1 ((isSome_of_settleAll (hfirst key)).2 (.inr ?_))
      obtain ⟨v, hv⟩ := Option.isSome_iff_exists.1 (Fields.isSome_get?.2 hkey)
      refine List.ne_nil_of_mem (a := v) (List.mem_filterMap.2 ⟨source, hsource, ?_⟩)
      rw [offer, if_neg hskipped, hv]
    have hget (key : String) : again.get? key = doc.get? key := by
      refine h key _ _ _ (fun w hw => ?_) (hfirst key) (hsecond key)
      exact (Json.throughout_obj.1 hold).2 _ (Fields.mem_of_get? hw)
    rw [Fields.eq_of_get? hsame (hsame ▸ hnodup) hget]

theorem stable_lists {lists : List (List Json)} (hne : lists ≠ [])
    (hlists : ∀ items ∈ lists, items.all isMember = true)
    (hkeys : ∀ v ∈ lists.flatten, v.WellKeyed)
    (h : ∀ key, Stable (membersOf key lists.flatten)) : Stable (lists.map .arr) := by
  intro current once twice hcurrent honce htwice
  obtain ⟨members, hmembers, rfl⟩ := mergeMembers_of_settleAll hne hlists honce
  obtain ⟨again, hagain, rfl⟩ := mergeMembers_of_settleAll hne hlists htwice
  have hagain : mergeMembers lists.flatten members = ⟨again, none⟩ := hagain
  have hitems : lists.flatten.all isMember = true := by
    simpa [List.all_flatten] using hlists
  have hold : ∀ v ∈ (itemsOf? current).getD [], v.WellKeyed := by
    unfold itemsOf?
    split
    · exact Json.throughout_arr.1 (hcurrent _ rfl)
    · simp
  -- Whatever is named is there after the first time.
  have hnone : (lists.flatten.filterMap keyOf?).eraseDups.filter
      (fun key => (memberAt? key members).isNone) = [] := by
    refine List.filter_eq_nil_iff.2 fun key hkey => ?_
    have hthere := (isSome_memberAt? hitems hkeys hmembers key).2
      (.inr (List.mem_eraseDups.1 hkey))
    simpa [Option.isSome_iff_ne_none] using hthere
  have hframe : frame again = frame members := by
    rw [frame_mergeMembers hitems hkeys hagain, hnone, List.map_nil, List.append_nil]
  have hat (key : NameKey) : memberAt? key again = memberAt? key members :=
    h key _ _ _ (fun w hw => hold w (List.mem_of_find?_eq_some hw))
      (settleAll_memberAt? hitems hkeys hmembers key) (settleAll_memberAt? hitems hkeys hagain key)
  rw [eq_of_frame hframe hat]

theorem stable_of_sizeOf_lt {size : Nat} {vs : List Json} (hsize : ∀ v ∈ vs, sizeOf v < size)
    (hkeys : ∀ v ∈ vs, v.WellKeyed) : Stable vs := by
  induction size generalizing vs with
  | zero =>
      cases vs with
      | nil => exact fun _ _ _ _ _ htwice => (Except.ok.inj htwice).symm
      | cons v rest => exact absurd (hsize v List.mem_cons_self) (Nat.not_lt_zero _)
  | succ size ih =>
      rcases resets_or_objects_or_lists vs with h | ⟨docs, rfl⟩ | ⟨lists, rfl, hlists⟩
      · exact fun current once twice _ honce htwice => h once current twice once htwice honce
      · have hdocs (doc : Fields) (hdoc : doc ∈ docs) := hsize _ (List.mem_map_of_mem hdoc)
        have hwell (doc : Fields) (hdoc : doc ∈ docs) := hkeys _ (List.mem_map_of_mem hdoc)
        refine stable_objects (fun doc hdoc => (hwell doc hdoc).1) fun key => ?_
        have hoffer (v : Json) (hv : v ∈ offersOf docs key) : ∃ doc ∈ docs, (key, v) ∈ doc := by
          obtain ⟨doc, hdoc, hv⟩ := List.mem_filterMap.1 hv
          rw [offer, Option.ite_none_left_eq_some] at hv
          exact ⟨doc, hdoc, Fields.mem_of_get? hv.2⟩
        refine ih (fun v hv => ?_) fun v hv => ?_
        · obtain ⟨doc, hdoc, hmem⟩ := hoffer v hv
          have hlt : sizeOf v < sizeOf (Json.obj doc) := Json.sizeOf_lt_of_mem_obj hmem
          have hle := hdocs doc hdoc
          omega
        · obtain ⟨doc, hdoc, hmem⟩ := hoffer v hv
          exact (Json.throughout_obj.1 (hwell doc hdoc)).2 _ hmem
      · by_cases hne : lists = []
        · subst hne
          exact fun _ _ _ _ _ htwice => (Except.ok.inj htwice).symm
        · have hitem (v : Json) (hv : v ∈ lists.flatten) : sizeOf v < size ∧ v.WellKeyed := by
            obtain ⟨items, hitems, hv⟩ := List.mem_flatten.1 hv
            have hlt := Json.sizeOf_lt_of_mem_arr hv
            have hle := hsize _ (List.mem_map_of_mem hitems)
            exact ⟨by omega, Json.throughout_arr.1 (hkeys _ (List.mem_map_of_mem hitems)) v hv⟩
          refine stable_lists hne hlists (fun v hv => (hitem v hv).2) fun key => ?_
          exact ih (fun v hv => (hitem v (List.mem_of_mem_filter hv)).1)
            fun v hv => (hitem v (List.mem_of_mem_filter hv)).2

/-- Merging a document once more changes nothing, and nothing cuts it short the second time if each
name in a list can be compared. -/
theorem mergeInto_again {source target : Fields} (hsource : (Json.obj source).WellKeyed)
    (htarget : (Json.obj target).WellKeyed) :
    (∀ once twice, mergeInto target source = .ok once → mergeInto once source = .ok twice →
        twice = once) ∧
      ((Json.obj source).Nameable → (Json.obj target).Nameable →
        ∃ once, mergeInto target source = .ok once ∧ mergeInto once source = .ok once) := by
  have hplace (place doc : Fields) (h : mergeInto place source = .ok doc) :
      settleAll (some (.obj place)) [.obj source] = .ok (some (.obj doc)) := by
    rw [settleAll_singleton, settle_obj, fieldsOf, h]
    rfl
  have hstable : Stable [.obj source] :=
    stable_of_sizeOf_lt (fun v hv => by rw [List.mem_singleton.1 hv]; exact Nat.lt_succ_self _)
      fun v hv => List.mem_singleton.1 hv ▸ hsource
  have hunchanged (once twice : Fields) (honce : mergeInto target source = .ok once)
      (htwice : mergeInto once source = .ok twice) : twice = once := by
    have hsame := hstable (some (.obj target)) _ _ (fun w hw => Option.some.inj hw ▸ htarget)
      (hplace target once honce) (hplace once twice htwice)
    exact Json.obj.inj (Option.some.inj hsame)
  refine ⟨hunchanged, fun hnames hnamed => ?_⟩
  obtain ⟨once, honce, hagain⟩ := mergeInto_nameable hsource hnames hnamed
  obtain ⟨twice, htwice, -⟩ := mergeInto_nameable hsource hnames hagain
  exact ⟨once, honce, hunchanged once twice honce htwice ▸ htwice⟩

/-- A record in which a member comes back in one shape after another. -/
def reshapedRecord : Fields :=
  [("properties", .arr
    [.obj [("name", .str "p"), ("type", .arr [.str "Number"])],
      .obj [("name", .str "q"), ("since", .obj [("android", .str "1.0")])],
      .obj [("type", .obj [("name", .arr [])]), ("name", .str "p")],
      .obj [("name", .str "q"), ("since", .str "2.0")],
      .obj [("name", .str "p"), ("type", .arr [.obj [("name", .str "t")]])],
      .obj [("name", .str "q"), ("since", .obj [("iphone", .str "3.0")])]])]

theorem mergeInto_again_reshapedRecord :
    ((Json.obj reshapedRecord).WellKeyed ∧ (Json.obj []).WellKeyed) ∧
      ((Json.obj reshapedRecord).Nameable ∧ (Json.obj []).Nameable) ∧
        ∃ once, mergeInto [] reshapedRecord = .ok once ∧
          mergeInto once reshapedRecord = .ok once := by
  have hkeys : (Json.obj reshapedRecord).WellKeyed := by
    simp [reshapedRecord, Json.WellKeyed, Json.Throughout, Json.ThroughoutItems,
      Json.ThroughoutValues, Fields.keys]
  have hnames : (Json.obj reshapedRecord).Nameable := by
    simp [reshapedRecord, Json.Nameable, Json.EveryList, Json.EveryListInItems,
      Json.EveryListInValues, isUnnameable, memberKey?, Json.nameKey?]
  exact ⟨⟨hkeys, wellKeyed_empty⟩, ⟨hnames, nameable_empty⟩,
    (mergeInto_again hkeys wellKeyed_empty).2 hnames nameable_empty⟩

/-- A record that puts a list with an object which cannot be compared, but is no list of members, in
the place of a list of members. -/
def mixedRecord : Fields :=
  [("methods", .arr
    [.obj [("name", .str "m"), ("returns", .arr [.obj [("name", .str "r")]])],
      .obj [("name", .str "m"), ("returns", .arr [.int 1, .obj [("name", .arr [])]])]])]

/-- It is not enough that names can be compared in the lists of members: merging this record again
comes to a fault. -/
theorem mergeInto_again_fails_mixedRecord :
    (Json.obj mixedRecord).WellKeyed ∧
      ((Json.obj mixedRecord).EveryList fun items =>
        isMemberList items = true → items.any isUnnameable = false) ∧
      ∃ once, mergeInto [] mixedRecord = .ok once ∧
        mergeInto once mixedRecord = .error .notAName := by
  refine ⟨?_, ?_, [("methods", .arr [.obj [("name", .str "m"),
    ("returns", .arr [.int 1, .obj [("name", .arr [])]])]])], ?_, ?_⟩
  · simp [mixedRecord, Json.WellKeyed, Json.Throughout, Json.ThroughoutItems,
      Json.ThroughoutValues, Fields.keys]
  · simp [mixedRecord, Json.EveryList, Json.EveryListInItems, Json.EveryListInValues, isMemberList,
      isMember, isUnnameable, Fields.has, memberKey?, Json.nameKey?]
  · rfl
  · rfl

end Document

end ApiTypings
