import ApiTypings.Proofs.Document.Sharing
import ApiTypings.Proofs.Success

/-!
Places in a document.

A merge can be told place by place. The places of a document are its keys and those of a list of
members are the names in it, and what comes to stand in a place depends on nothing but what stood
there and the values that are merged into it, one after another. Any sequence of merges is thereby
taken apart into sequences of merges in smaller places, however often a name occurs.
-/

namespace ApiTypings

theorem Fields.isSome_get? {fields : Fields} {key : String} :
    (fields.get? key).isSome ↔ key ∈ fields.keys := by
  constructor
  · intro h
    obtain ⟨v, hv⟩ := Option.isSome_iff_exists.1 h
    exact List.mem_map.2 ⟨_, mem_of_get? hv, rfl⟩
  · intro h
    induction fields with
    | nil => exact absurd h List.not_mem_nil
    | cons field rest ih =>
        obtain ⟨k, v⟩ := field
        rw [get?_cons]
        split
        · rfl
        next hk => exact ih ((List.mem_cons.1 h).resolve_left (Ne.symm hk))

namespace Document

open Success

/-- What a merge gives if nothing cuts it short. -/
def Merged.outcome {α : Type} (r : Merged α) : Except Fault α :=
  match r.fault with
  | none => .ok r.value
  | some fault => .error fault

/-- What stands in a place after a value has been merged into it. -/
def settle (current : Option Json) (v : Json) : Except Fault (Option Json) :=
  (settleValue (some v) current).outcome

/-- What stands there after several values have been merged into it, one after another. -/
def settleAll (current : Option Json) (vs : List Json) : Except Fault (Option Json) :=
  vs.foldlM settle current

/-- The merge of documents, one after another, into a target. -/
def mergeOnto (target : Fields) (docs : List Fields) : Except Fault Fields :=
  docs.foldlM mergeInto target

variable {current result : Option Json} {target doc : Fields}

theorem wellKeyed_empty : (Json.obj []).WellKeyed :=
  Json.throughout_obj.2 ⟨List.nodup_nil, by simp⟩

@[simp] theorem settleAll_nil (current : Option Json) : settleAll current [] = .ok current := rfl

theorem settleAll_cons (current : Option Json) (v : Json) (vs : List Json) :
    settleAll current (v :: vs) = settle current v >>= fun next => settleAll next vs := by
  simp only [settleAll, List.foldlM_cons]

@[simp] theorem settleAll_singleton (current : Option Json) (v : Json) :
    settleAll current [v] = settle current v := by
  rw [settleAll, List.foldlM_cons]
  exact bind_pure _

theorem settleAll_append (current : Option Json) (vs ws : List Json) :
    settleAll current (vs ++ ws) = settleAll current vs >>= fun next => settleAll next ws := by
  simp only [settleAll, List.foldlM_append]

theorem mergeOnto_cons (target doc : Fields) (docs : List Fields) :
    mergeOnto target (doc :: docs) = mergeInto target doc >>= fun next => mergeOnto next docs := by
  simp only [mergeOnto, List.foldlM_cons]

theorem Merged.outcome_eq_ok {α : Type} {r : Merged α} {a : α} :
    r.outcome = .ok a ↔ r = ⟨a, none⟩ := by
  rcases r with ⟨value, _ | fault⟩ <;> simp [Merged.outcome]

theorem Merged.succeeds_outcome {α : Type} {r : Merged α} :
    Succeeds r.outcome ↔ r.fault = none := by
  rcases r with ⟨value, _ | fault⟩ <;> simp [Merged.outcome, Succeeds]

theorem mergeInto_eq_ok_iff_merged {source : Fields} :
    mergeInto target source = .ok doc ↔ mergeFields source target = ⟨doc, none⟩ :=
  Merged.outcome_eq_ok

theorem settle_eq_ok {v : Json} :
    settle current v = .ok result ↔
      (mergeValue v current).fault = none ∧ (mergeValue v current).value.or current = result := by
  rw [settle, Merged.outcome_eq_ok, settleValue, Merged.mk.injEq, and_comm]

/-! ### Values that replace what was there -/

/-- A value that is not merged into what stands in its place. -/
def Replaces : Json → Prop
  | .obj _ => False
  | .arr items => items.all isMember = false
  | _ => True

/-- A value is an object, a list of members that may be empty, or it replaces what was there. -/
theorem object_or_list_or_replaces (v : Json) :
    (∃ fields, v = .obj fields) ∨ (∃ items, v = .arr items ∧ items.all isMember = true) ∨
      Replaces v := by
  cases v with
  | obj fields => exact .inl ⟨fields, rfl⟩
  | arr items =>
      cases hall : items.all isMember with
      | true => exact .inr (.inl ⟨items, rfl, hall⟩)
      | false => exact .inr (.inr hall)
  | _ => exact .inr (.inr trivial)

theorem settle_of_replaces {v : Json} (h : Replaces v) (current : Option Json) :
    settle current v = (copyValue v).map some := by
  cases v with
  | obj fields => exact h.elim
  | arr items =>
      have hlist : isMemberList items = false := by rw [isMemberList, show _ = false from h,
        Bool.and_false]
      have hne : items.isEmpty = false := by
        cases items with
        | nil => cases h
        | cons v rest => rfl
      simp only [settle, settleValue, mergeValue, hlist, hne, copyValue, Merged.outcome]
      cases copyItems items <;> rfl
  | _ => rfl

theorem replaces_of_nameKey? {v : Json} (h : v.nameKey?.isSome) : Replaces v := by
  cases v with
  | arr items => cases h
  | obj fields => cases h
  | _ => trivial

theorem copyValue_of_nameKey? {v : Json} (h : v.nameKey?.isSome) : copyValue v = .ok v := by
  cases v with
  | arr items => cases h
  | obj fields => cases h
  | _ => rfl

theorem settle_of_nameKey? {v : Json} (h : v.nameKey?.isSome) (current : Option Json) :
    settle current v = .ok (some v) := by
  rw [settle_of_replaces (replaces_of_nameKey? h), copyValue_of_nameKey? h]
  rfl

/-! ### Objects -/

theorem settle_obj (current : Option Json) (fields : Fields) :
    settle current (.obj fields) =
      (mergeInto (fieldsOf current) fields).map fun doc => some (.obj doc) := by
  simp only [settle, settleValue, mergeValue, mergeInto, Merged.outcome]
  cases (mergeFields fields (fieldsOf current)).fault <;> rfl

theorem settleAll_objects_of_obj (target : Fields) (docs : List Fields) :
    settleAll (some (.obj target)) (docs.map .obj) =
      (mergeOnto target docs).map fun doc => some (.obj doc) := by
  induction docs generalizing target with
  | nil => rfl
  | cons doc rest ih =>
      rw [List.map_cons, settleAll_cons, mergeOnto_cons, settle_obj, fieldsOf]
      cases mergeInto target doc with
      | error fault => rfl
      | ok next => exact ih next

/-- Objects are merged into a place as documents are into the fields that stand there. -/
theorem settleAll_objects (current : Option Json) {docs : List Fields} (h : docs ≠ []) :
    settleAll current (docs.map .obj) =
      (mergeOnto (fieldsOf current) docs).map fun doc => some (.obj doc) := by
  obtain ⟨first, rest, rfl⟩ := List.exists_cons_of_ne_nil h
  rw [List.map_cons, settleAll_cons, settle_obj, mergeOnto_cons]
  cases mergeInto (fieldsOf current) first with
  | error fault => rfl
  | ok next => exact settleAll_objects_of_obj next rest

/-! ### The keys of a document -/

/-- What documents offer under a key, in order. -/
def offersOf (docs : List Fields) (key : String) : List Json := docs.filterMap (offer · key)

theorem settleAll_offersOf_cons (current : Option Json) (doc : Fields) (docs : List Fields)
    (key : String) :
    settleAll current (offersOf (doc :: docs) key) =
      match (settleValue (offer doc key) current).fault with
      | none => settleAll (settleValue (offer doc key) current).value (offersOf docs key)
      | some fault => .error fault := by
  rw [offersOf, List.filterMap_cons]
  cases offer doc key with
  | none => rfl
  | some v =>
      dsimp only
      rw [settleAll_cons, settle, Merged.outcome]
      cases (settleValue (some v) current).fault <;> rfl

/-- Documents without repeated keys are merged key by key. -/
theorem mergeOnto_by_key {docs : List Fields} (hkeys : ∀ doc ∈ docs, doc.keys.Nodup)
    (target : Fields) :
    (Succeeds (mergeOnto target docs) ↔
        ∀ key, Succeeds (settleAll (target.get? key) (offersOf docs key))) ∧
      ∀ doc, mergeOnto target docs = .ok doc →
        ∀ key, settleAll (target.get? key) (offersOf docs key) = .ok (doc.get? key) := by
  induction docs generalizing target with
  | nil =>
      refine ⟨iff_of_true (succeeds_ok _) fun key => succeeds_ok _, fun doc h key => ?_⟩
      obtain rfl := Except.ok.inj h
      rfl
  | cons first rest ih =>
      obtain ⟨hfirst, hrest⟩ := List.forall_mem_cons.1 hkeys
      obtain ⟨hfault, hvalue⟩ := mergeFields_by_key hfirst target
      simp only [settleAll_offersOf_cons]
      rw [mergeOnto_cons]
      cases hmerge : mergeInto target first with
      | ok next =>
          have hnone := mergeInto_eq_ok_iff.1 ⟨next, hmerge⟩
          have hget (key : String) := get?_of_mergeInto hfirst hmerge key
          simp only [hfault.1 hnone, ← hget]
          exact ih hrest next
      | error fault =>
          refine ⟨iff_of_false (not_succeeds_error fault) fun hall => ?_, fun doc h => ?_⟩
          · -- A key whose value cannot be merged is in the way of the whole document.
            have hnone : (mergeFields first target).fault = none := by
              refine hfault.2 fun key => ?_
              by_contra hsome
              obtain ⟨f, hf⟩ := Option.ne_none_iff_exists'.1 hsome
              have hkey := hall key
              rw [hf] at hkey
              exact not_succeeds_error f hkey
            obtain ⟨next, hnext⟩ := mergeInto_eq_ok_iff.2 hnone
            rw [hmerge] at hnext
            cases hnext
          · cases h

/-! ### The names in a list -/

/-- What the members of a list are told apart by. -/
def keyOf? : Json → Option NameKey
  | .obj fields => memberKey? fields
  | _ => none

/-- The first member of a name. -/
def memberAt? (key : NameKey) (members : List Json) : Option Json :=
  members.find? fun v => keyOf? v = some key

/-- All members of a name, in order. -/
def membersOf (key : NameKey) (items : List Json) : List Json :=
  items.filter fun v => keyOf? v = some key

theorem keyOf?_of_memberAt? {key : NameKey} {members : List Json} {v : Json}
    (h : memberAt? key members = some v) : keyOf? v = some key := by
  simpa using List.find?_some h

theorem memberKey?_of_merged {fields target doc : Fields} {key : NameKey}
    (hkeys : fields.keys.Nodup) (hkey : memberKey? fields = some key)
    (h : mergeFields fields target = ⟨doc, none⟩) : memberKey? doc = some key := by
  have hok : (mergeFields fields target).fault = none := by rw [h]
  simpa only [h] using memberKey?_mergeFields hkeys hkey hok

theorem keyOf?_eq_none {v : Json} (h : ∀ fields, v = .obj fields → False) : keyOf? v = none := by
  cases v with
  | obj fields => exact (h fields rfl).elim
  | _ => rfl

section PlaceMember

variable {merge : Fields → Merged Fields} {key : NameKey}

theorem memberAt?_cons (key : NameKey) (v : Json) (rest : List Json) :
    memberAt? key (v :: rest) = if keyOf? v = some key then some v else memberAt? key rest := by
  rw [memberAt?, List.find?_cons]
  by_cases h : keyOf? v = some key <;> simp [h, memberAt?]

theorem placeMember_fault_eq (merge : Fields → Merged Fields) (key : NameKey)
    (members : List Json) :
    (placeMember merge key members).fault =
      (merge (fieldsOf (memberAt? key members))).fault := by
  fun_induction placeMember merge key members with
  | case1 r => rfl
  | case2 fields rest hkey r => simp [memberAt?_cons, keyOf?, hkey, fieldsOf, r]
  | case3 fields rest hkey r ih => simpa [memberAt?_cons, keyOf?, hkey] using ih
  | case4 v rest hv r ih =>
      have hnone := keyOf?_eq_none hv
      simpa [memberAt?_cons, hnone] using ih

/-- Placing a member touches no other name. -/
theorem memberAt?_placeMember {members : List Json} {doc : Fields}
    (hmerge : merge (fieldsOf (memberAt? key members)) = ⟨doc, none⟩)
    (hkey : memberKey? doc = some key) (other : NameKey) :
    memberAt? other (placeMember merge key members).value =
      if key = other then some (.obj doc) else memberAt? other members := by
  fun_induction placeMember merge key members with
  | case1 r =>
      have hr : r = ⟨doc, none⟩ := hmerge
      simp [hr, memberAt?_cons, keyOf?, hkey]
  | case2 fields rest hfields r =>
      have hr : r = ⟨doc, none⟩ := by
        simpa [memberAt?_cons, keyOf?, hfields, fieldsOf] using hmerge
      by_cases hother : key = other <;>
        simp [hr, memberAt?_cons, keyOf?, hfields, hkey, hother]
  | case3 fields rest hfields r ih =>
      have hrest := ih (by simpa [memberAt?_cons, keyOf?, hfields] using hmerge)
      rw [memberAt?_cons, hrest, memberAt?_cons]
      by_cases hother : key = other
      · simp [← hother, keyOf?, hfields]
      · simp [hother]
  | case4 v rest hv r ih =>
      have hnone := keyOf?_eq_none hv
      have hrest := ih (by simpa [memberAt?_cons, hnone] using hmerge)
      rw [memberAt?_cons, hrest, memberAt?_cons]
      simp [hnone]

end PlaceMember

theorem membersOf_cons (key : NameKey) (v : Json) (rest : List Json) :
    membersOf key (v :: rest) =
      if keyOf? v = some key then v :: membersOf key rest else membersOf key rest := by
  rw [membersOf, List.filter_cons]
  by_cases h : keyOf? v = some key <;> simp [h, membersOf]

/-- Lists of members are merged name by name. -/
theorem mergeMembers_by_name {items : List Json} (hlist : items.all isMember = true)
    (hkeys : ∀ v ∈ items, v.WellKeyed) (members : List Json) :
    ((mergeMembers items members).fault = none ↔ (∀ v ∈ items, (keyOf? v).isSome) ∧
        ∀ key, Succeeds (settleAll (memberAt? key members) (membersOf key items))) ∧
      ((mergeMembers items members).fault = none → ∀ key,
        settleAll (memberAt? key members) (membersOf key items) =
          .ok (memberAt? key (mergeMembers items members).value)) := by
  induction items generalizing members with
  | nil => exact ⟨iff_of_true rfl ⟨by simp, fun key => succeeds_ok _⟩, fun _ key => rfl⟩
  | cons v rest ih =>
      obtain ⟨hv, hrest⟩ := List.forall_mem_cons.1 hkeys
      obtain ⟨hmember, hothers⟩ := Bool.and_eq_true_iff.1 hlist
      cases v with
      | obj fields =>
          rw [mergeMembers]
          cases hkey : memberKey? fields with
          | none => simp [keyOf?, hkey]
          | some key =>
              have hself : keyOf? (.obj fields) = some key := hkey
              dsimp only
              rw [placeMember_fault_eq]
              rcases hmerge : mergeFields fields (fieldsOf (memberAt? key members)) with
                ⟨doc, _ | fault⟩
              · -- The member is in its place, and the others are merged into what came of that.
                have hnamed := memberKey?_of_merged hv.1 hkey hmerge
                have hplaced (other : NameKey) := memberAt?_placeMember hmerge hnamed other
                have hstep (other : NameKey) :
                    settleAll (memberAt? other members) (membersOf other (.obj fields :: rest)) =
                      settleAll (memberAt? other (placeMember (fun target =>
                        mergeFields fields target) key members).value) (membersOf other rest) := by
                  rw [hplaced, membersOf_cons, hself]
                  by_cases hother : key = other
                  · subst hother
                    rw [if_pos rfl, if_pos rfl, settleAll_cons, settle_obj,
                      mergeInto_eq_ok_iff_merged.2 hmerge]
                    rfl
                  · rw [if_neg (by simpa using hother), if_neg hother]
                simp only [hstep, List.forall_mem_cons, hself, Option.isSome_some, true_and]
                exact ih hothers hrest _
              · refine ⟨iff_of_false (by simp) fun hall => ?_, by simp⟩
                obtain ⟨r, hr⟩ := hall.2 key
                rw [membersOf_cons, if_pos hself, settleAll_cons, settle_obj] at hr
                obtain ⟨next, hnext, -⟩ := bind_eq_ok.1 hr
                obtain ⟨doc', hdoc', -⟩ := map_eq_ok.1 hnext
                rw [mergeInto_eq_ok_iff_merged, hmerge] at hdoc'
                cases hdoc'
      | _ => simp [isMember] at hmember

theorem settleAll_memberAt? {items members merged : List Json}
    (hlist : items.all isMember = true) (hkeys : ∀ v ∈ items, v.WellKeyed)
    (h : mergeMembers items members = ⟨merged, none⟩) (key : NameKey) :
    settleAll (memberAt? key members) (membersOf key items) = .ok (memberAt? key merged) := by
  simpa only [h] using (mergeMembers_by_name hlist hkeys members).2 (by rw [h]) key

/-! ### Lists in a place -/

/-- A list of members, or an empty list, is merged into the list that stands in the place. -/
theorem settle_list {items : List Json} (hlist : items.all isMember = true) :
    settle current (.arr items) = .ok result ↔
      (items = [] ∨ ((itemsOf? current).getD []).any isUnnameable = false) ∧
        ∃ members, mergeMembers items ((itemsOf? current).getD []) = ⟨members, none⟩ ∧
          result = some (.arr members) := by
  rw [settle_eq_ok]
  by_cases hempty : items = []
  · subst hempty
    have hnil : mergeValue (.arr []) current =
        if (itemsOf? current).isSome then ⟨none, none⟩ else ⟨some (.arr []), none⟩ := by
      rw [mergeValue]
      rfl
    rw [hnil, mergeMembers]
    cases hcurrent : itemsOf? current with
    | none => simp [@eq_comm _ result]
    | some old =>
        obtain rfl : current = some (.arr old) := by
          unfold itemsOf? at hcurrent
          split at hcurrent
          · rw [Option.some.inj hcurrent]
          · cases hcurrent
        simp [@eq_comm _ result]
  · have hmembers : isMemberList items = true := by simp [isMemberList, hempty, hlist]
    obtain ⟨hfault, hvalue⟩ := mergeValue_members hmembers current
    constructor
    · rintro ⟨hnone, rfl⟩
      obtain ⟨hold, hok⟩ := hfault.1 hnone
      exact ⟨.inr hold, _, by rw [← hok], by rw [hvalue hnone, Option.some_or]⟩
    · rintro ⟨hold, members, hmerge, rfl⟩
      have hnone := hfault.2 ⟨hold.resolve_left hempty, by rw [hmerge]⟩
      exact ⟨hnone, by rw [hvalue hnone, hmerge, Option.some_or]⟩

theorem mergeMembers_append_eq {front back old mid : List Json}
    (h : mergeMembers front old = ⟨mid, none⟩) :
    mergeMembers (front ++ back) old = mergeMembers back mid := by
  rw [mergeMembers_append, h]

/-- Lists of members are merged into a place as their members are, one after another. -/
theorem mergeMembers_of_settleAll {lists : List (List Json)} (hne : lists ≠ [])
    (hlists : ∀ items ∈ lists, items.all isMember = true)
    (h : settleAll current (lists.map .arr) = .ok result) :
    ∃ members, mergeMembers lists.flatten ((itemsOf? current).getD []) = ⟨members, none⟩ ∧
      result = some (.arr members) := by
  induction lists generalizing current with
  | nil => exact absurd rfl hne
  | cons items rest ih =>
      obtain ⟨hitems, hrest⟩ := List.forall_mem_cons.1 hlists
      rw [List.map_cons, settleAll_cons] at h
      obtain ⟨next, hnext, h⟩ := bind_eq_ok.1 h
      obtain ⟨-, mid, hmid, rfl⟩ := (settle_list hitems).1 hnext
      rw [List.flatten_cons, mergeMembers_append_eq hmid]
      by_cases hmore : rest = []
      · subst hmore
        exact ⟨mid, rfl, (Except.ok.inj h).symm⟩
      · exact ih hmore hrest h

theorem settleAll_of_mergeMembers {front back mid members : List Json}
    (hfront : front.all isMember = true) (hback : back.all isMember = true)
    (hkeys : ∀ v ∈ front, v.WellKeyed) (hmid : mergeMembers front [] = ⟨mid, none⟩)
    (h : mergeMembers back mid = ⟨members, none⟩) :
    settleAll none [.arr front, .arr back] = .ok (some (.arr members)) := by
  have hfirst : settle none (.arr front) = .ok (some (.arr mid)) :=
    (settle_list hfront).2 ⟨.inr rfl, mid, hmid, rfl⟩
  have hnameable : mid.any isUnnameable = false := by
    have hok : (mergeMembers front []).fault = none := by rw [hmid]
    simpa only [hmid] using nameable_mergeMembers hkeys rfl hok
  rw [settleAll_cons, hfirst]
  have hsecond : settle (some (.arr mid)) (.arr back) = .ok (some (.arr members)) :=
    (settle_list hback).2 ⟨.inr hnameable, members, h, rfl⟩
  exact bind_eq_ok.2 ⟨_, rfl, (settleAll_singleton _ _).trans hsecond⟩

/-! ### Occupied places -/

theorem isSome_of_settle {v : Json} (h : settle current v = .ok result) : result.isSome := by
  rcases object_or_list_or_replaces v with ⟨fields, rfl⟩ | ⟨items, rfl, hlist⟩ | hv
  · rw [settle_obj] at h
    obtain ⟨doc, -, rfl⟩ := map_eq_ok.1 h
    rfl
  · obtain ⟨-, members, -, rfl⟩ := (settle_list hlist).1 h
    rfl
  · rw [settle_of_replaces hv] at h
    obtain ⟨w, -, rfl⟩ := map_eq_ok.1 h
    rfl

/-- Something stands in a place afterwards if it did before or if anything was merged into it. -/
theorem isSome_of_settleAll {vs : List Json} (h : settleAll current vs = .ok result) :
    result.isSome ↔ current.isSome ∨ vs ≠ [] := by
  induction vs using List.reverseRecOn with
  | nil =>
      obtain rfl := Except.ok.inj h
      simp
  | append_singleton vs v _ =>
      rw [settleAll_append] at h
      obtain ⟨next, -, h⟩ := bind_eq_ok.1 h
      rw [settleAll_singleton] at h
      simp [isSome_of_settle h]

theorem membersOf_ne_nil {key : NameKey} {items : List Json} :
    membersOf key items ≠ [] ↔ key ∈ items.filterMap keyOf? := by
  simp [membersOf, List.filter_eq_nil_iff]

theorem isSome_memberAt? {items members result : List Json} (hlist : items.all isMember = true)
    (hkeys : ∀ v ∈ items, v.WellKeyed) (h : mergeMembers items members = ⟨result, none⟩)
    (key : NameKey) :
    (memberAt? key result).isSome ↔
      (memberAt? key members).isSome ∨ key ∈ items.filterMap keyOf? := by
  rw [isSome_of_settleAll (settleAll_memberAt? hlist hkeys h key), membersOf_ne_nil]

end Document

end ApiTypings
