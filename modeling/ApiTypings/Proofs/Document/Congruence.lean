import ApiTypings.Proofs.Document.Place
import ApiTypings.Proofs.Json.Agreement

/-!
Merging values that are equal up to the order of keys.

If two values are equal up to the order of keys, and so are the values in two places, then merging
the one into the one place and the other into the other gives such values again, or comes to a fault
in both. The items of a list are merged in the same order, so that they are compared one by one; the
fields of an object are compared key by key.
-/

namespace ApiTypings.Document

open Success
open Json (Equal)

variable {eq : Sameness}

/-! ### What equal values have in common -/

theorem isSome_of_rel {α β : Type} {R : α → β → Prop} {x : Option α} {y : Option β}
    (h : Option.Rel R x y) : x.isSome = y.isSome := by
  cases h <;> rfl

theorem isMember_of_nameKey? {v : Json} (h : v.nameKey?.isSome) : isMember v = false := by
  cases v with
  | obj fields => cases h
  | _ => rfl

theorem keyOf?_of_nameKey? {v : Json} (h : v.nameKey?.isSome) : keyOf? v = none := by
  cases v with
  | obj fields => cases h
  | _ => rfl

theorem fieldsOf_of_nameKey? {v : Json} (h : v.nameKey?.isSome) : fieldsOf (some v) = [] := by
  cases v with
  | obj fields => cases h
  | _ => rfl

theorem itemsOf?_of_nameKey? {v : Json} (h : v.nameKey?.isSome) : itemsOf? (some v) = none := by
  cases v with
  | arr items => cases h
  | _ => rfl

theorem isUnnameable_eq (v : Json) : isUnnameable v = (isMember v && (keyOf? v).isNone) := by
  cases v <;> rfl

theorem isMember_congr {v w : Json} (h : Equal eq v w) : isMember v = isMember w := by
  rcases h.forms with ⟨hv, hw⟩ | ⟨a, b, rfl, rfl, -⟩ | ⟨a, b, rfl, rfl, hfields⟩
  · rw [isMember_of_nameKey? hv, isMember_of_nameKey? hw]
  · rfl
  · exact isSome_of_rel (hfields "name")

theorem memberKey?_congr {a b : Fields}
    (h : ∀ key, Option.Rel (Equal eq) (a.get? key) (b.get? key)) :
    memberKey? a = memberKey? b := by
  have hname := h "name"
  rw [memberKey?, memberKey?]
  generalize a.get? "name" = x, b.get? "name" = y at hname ⊢
  cases hname with
  | none => rfl
  | some h => exact h.nameKey?_eq

theorem keyOf?_congr {v w : Json} (h : Equal eq v w) : keyOf? v = keyOf? w := by
  rcases h.forms with ⟨hv, hw⟩ | ⟨a, b, rfl, rfl, -⟩ | ⟨a, b, rfl, rfl, hfields⟩
  · rw [keyOf?_of_nameKey? hv, keyOf?_of_nameKey? hw]
  · rfl
  · exact memberKey?_congr hfields

theorem isUnnameable_congr {v w : Json} (h : Equal eq v w) : isUnnameable v = isUnnameable w := by
  rw [isUnnameable_eq, isUnnameable_eq, isMember_congr h, keyOf?_congr h]

theorem any_congr {α β : Type} {R : α → β → Prop} {p : α → Bool} {q : β → Bool} {as : List α}
    {bs : List β} (hpq : ∀ a b, R a b → p a = q b) (h : List.Forall₂ R as bs) :
    as.any p = bs.any q := by
  induction h with
  | nil => rfl
  | cons hab _ ih => rw [List.any_cons, List.any_cons, hpq _ _ hab, ih]

/-! ### Documents -/

/-- Merging the one value or the other into places that are equal gives equal values. -/
structure Congruent (eq : Sameness) (v w : Json) : Prop where
  place : ∀ current other, Option.Rel (Equal eq) current other →
    Matches (Option.Rel (Equal eq)) (settle current v) (settle other w)
  copy : Matches (Equal eq) (copyValue v) (copyValue w)

theorem matches_settleAll {vs ws : List Json} (h : List.Forall₂ (Congruent eq) vs ws)
    {current other : Option Json} (hplace : Option.Rel (Equal eq) current other) :
    Matches (Option.Rel (Equal eq)) (settleAll current vs) (settleAll other ws) := by
  induction h generalizing current other with
  | nil => exact .ok hplace
  | cons hvw _ ih =>
      rw [settleAll_cons, settleAll_cons]
      exact (hvw.place _ _ hplace).bind fun next next' hnext => ih hnext

/-- Documents are merged alike if the values under each key are. -/
theorem matches_mergeOnto {R : Option Json → Option Json → Prop} {docs others : List Fields}
    {target place : Fields} (hdocs : ∀ doc ∈ docs, doc.keys.Nodup)
    (hothers : ∀ doc ∈ others, doc.keys.Nodup)
    (h : ∀ key, Matches R (settleAll (target.get? key) (offersOf docs key))
      (settleAll (place.get? key) (offersOf others key))) :
    Matches (fun a b => ∀ key, R (a.get? key) (b.get? key)) (mergeOnto target docs)
      (mergeOnto place others) := by
  obtain ⟨hone, hget⟩ := mergeOnto_by_key hdocs target
  obtain ⟨htwo, hget'⟩ := mergeOnto_by_key hothers place
  refine matches_iff.2 ⟨?_, fun a b ha hb key => ?_⟩
  · rw [hone, htwo]
    exact forall_congr' fun key => (matches_iff.1 (h key)).1
  · exact (matches_iff.1 (h key)).2 _ _ (hget a ha key) (hget' b hb key)

theorem mergeOnto_singleton (target doc : Fields) :
    mergeOnto target [doc] = mergeInto target doc := by
  rw [mergeOnto_cons]
  exact bind_pure _

theorem offersOf_cons (doc : Fields) (docs : List Fields) (key : String) :
    offersOf (doc :: docs) key = (offer doc key).toList ++ offersOf docs key := by
  rw [offersOf, List.filterMap_cons]
  cases offer doc key <;> rfl

theorem matches_mergeInto {a b : Fields} (ha : a.keys.Nodup) (hb : b.keys.Nodup)
    (hkeys : ∀ key, (a.get? key).isSome = (b.get? key).isSome)
    (hvalues : ∀ key v w, a.get? key = some v → b.get? key = some w → Congruent eq v w)
    {target place : Fields}
    (hplaces : ∀ key, Option.Rel (Equal eq) (target.get? key) (place.get? key)) :
    Matches (fun d d' => Equal eq (.obj d) (.obj d')) (mergeInto target a) (mergeInto place b) := by
  rw [← mergeOnto_singleton, ← mergeOnto_singleton]
  refine (matches_mergeOnto (by simpa using ha) (by simpa using hb) fun key => ?_).imp
    fun d d' => Json.Equal.obj_iff.2
  refine matches_settleAll ?_ (hplaces key)
  rw [offersOf_cons, offersOf_cons, offer, offer]
  split
  · exact .nil
  · have hkey := hkeys key
    have hvalue := hvalues key
    generalize a.get? key = x, b.get? key = y at hkey hvalue ⊢
    cases x with
    | none =>
        cases y with
        | none => exact .nil
        | some w => cases hkey
    | some v =>
        cases y with
        | none => cases hkey
        | some w => exact .cons (hvalue v w rfl rfl) .nil

theorem copyValue_obj (fields : Fields) :
    copyValue (.obj fields) = (mergeInto [] fields).map .obj := by
  rw [copyValue, mergeInto]
  cases (mergeFields fields []).fault <;> rfl

theorem rel_fieldsOf {current other : Option Json} (h : Option.Rel (Equal eq) current other)
    (key : String) :
    Option.Rel (Equal eq) ((fieldsOf current).get? key) ((fieldsOf other).get? key) := by
  cases h with
  | none => exact .none
  | some h =>
      rcases h.forms with ⟨hv, hw⟩ | ⟨a, b, rfl, rfl, -⟩ | ⟨a, b, rfl, rfl, hfields⟩
      · rw [fieldsOf_of_nameKey? hv, fieldsOf_of_nameKey? hw]
        exact .none
      · exact .none
      · exact hfields key

theorem congruent_obj {a b : Fields} (ha : a.keys.Nodup) (hb : b.keys.Nodup)
    (hkeys : ∀ key, (a.get? key).isSome = (b.get? key).isSome)
    (hvalues : ∀ key v w, a.get? key = some v → b.get? key = some w → Congruent eq v w) :
    Congruent eq (.obj a) (.obj b) where
  place current other h := by
    rw [settle_obj, settle_obj]
    exact (matches_mergeInto ha hb hkeys hvalues (rel_fieldsOf h)).map fun d d' => .some
  copy := by
    rw [copyValue_obj, copyValue_obj]
    exact (matches_mergeInto ha hb hkeys hvalues fun key => .none).map fun d d' => id

/-! ### Lists -/

theorem matches_copyItems {as bs : List Json} (h : List.Forall₂ (Congruent eq) as bs) :
    Matches (List.Forall₂ (Equal eq)) (copyItems as) (copyItems bs) := by
  induction h with
  | nil => exact .ok .nil
  | @cons v w vs ws hvw _ ih =>
      have hcopy := hvw.copy
      rw [copyItems, copyItems]
      generalize copyValue v = x, copyValue w = y at hcopy ⊢
      cases hcopy with
      | ok h => exact ih.map fun _ _ => .cons h
      | error e f => exact .error e f

theorem outcome_map {α β : Type} (f : α → β) (r : Merged α) :
    (⟨f r.value, r.fault⟩ : Merged β).outcome = r.outcome.map f := by
  rcases r with ⟨value, _ | fault⟩ <;> rfl

theorem outcome_placeMember_nil (merge : Fields → Merged Fields) (key : NameKey) :
    (placeMember merge key []).outcome = (merge []).outcome.map fun doc => [.obj doc] := by
  rw [placeMember]
  rcases merge [] with ⟨doc, _ | fault⟩ <;> rfl

theorem outcome_placeMember_cons (merge : Fields → Merged Fields) (key : NameKey) (v : Json)
    (rest : List Json) :
    (placeMember merge key (v :: rest)).outcome =
      if keyOf? v = some key then
        (merge (fieldsOf (some v))).outcome.map fun doc => .obj doc :: rest
      else (placeMember merge key rest).outcome.map (v :: ·) := by
  cases v with
  | obj fields =>
      rw [placeMember, keyOf?]
      split
      · exact outcome_map (fun doc => .obj doc :: rest) (merge fields)
      · exact outcome_map (.obj fields :: ·) (placeMember merge key rest)
  | _ => exact outcome_map _ (placeMember merge key rest)

theorem matches_placeMember {merge other : Fields → Merged Fields}
    (hmerge : ∀ target place : Fields,
      (∀ key, Option.Rel (Equal eq) (target.get? key) (place.get? key)) →
        Matches (fun d d' => Equal eq (.obj d) (.obj d')) (merge target).outcome
          (other place).outcome)
    (key : NameKey) {members others : List Json} (h : List.Forall₂ (Equal eq) members others) :
    Matches (List.Forall₂ (Equal eq)) (placeMember merge key members).outcome
      (placeMember other key others).outcome := by
  induction h with
  | nil =>
      rw [outcome_placeMember_nil, outcome_placeMember_nil]
      exact (hmerge [] [] fun key => .none).map fun d d' hd => .cons hd .nil
  | cons hvw hrest ih =>
      rw [outcome_placeMember_cons, outcome_placeMember_cons, keyOf?_congr hvw]
      split
      · exact (hmerge _ _ (rel_fieldsOf (.some hvw))).map fun d d' hd => .cons hd hrest
      · exact ih.map fun _ _ => .cons hvw

theorem outcome_mergeMembers_cons {v : Json} (hmember : isMember v = true)
    (rest members : List Json) :
    (mergeMembers (v :: rest) members).outcome =
      match keyOf? v with
      | none => .error .notAName
      | some key =>
        (placeMember (mergeFields (fieldsOf (some v))) key members).outcome >>= fun next =>
          (mergeMembers rest next).outcome := by
  cases v with
  | obj fields =>
      rw [mergeMembers, keyOf?]
      cases memberKey? fields with
      | none => rfl
      | some key =>
          dsimp only [fieldsOf]
          rcases placeMember (mergeFields fields) key members with ⟨next, _ | fault⟩ <;> rfl
  | _ => cases hmember

theorem exists_obj_of_isMember {v : Json} (h : isMember v = true) : ∃ fields, v = .obj fields := by
  cases v with
  | obj fields => exact ⟨fields, rfl⟩
  | _ => cases h

theorem Congruent.matches_mergeInto {a b : Fields} (h : Congruent eq (.obj a) (.obj b))
    {target place : Fields}
    (hplaces : ∀ key, Option.Rel (Equal eq) (target.get? key) (place.get? key)) :
    Matches (fun d d' => Equal eq (.obj d) (.obj d')) (mergeInto target a) (mergeInto place b) := by
  have hsettle := h.place (some (.obj target)) (some (.obj place))
    (.some (Json.Equal.obj_iff.2 hplaces))
  rw [settle_obj, settle_obj, fieldsOf, fieldsOf] at hsettle
  generalize mergeInto target a = x, mergeInto place b = y at hsettle ⊢
  cases x <;> cases y <;> cases hsettle
  · exact .error _ _
  next h => cases h with | some h => exact .ok h

theorem matches_mergeMembers {items items' : List Json} (hlist : items.all isMember = true)
    (hequal : List.Forall₂ (Equal eq) items items')
    (h : List.Forall₂ (Congruent eq) items items') {members others : List Json}
    (hmembers : List.Forall₂ (Equal eq) members others) :
    Matches (List.Forall₂ (Equal eq)) (mergeMembers items members).outcome
      (mergeMembers items' others).outcome := by
  induction hequal generalizing members others with
  | nil => exact .ok hmembers
  | @cons v w rest rest' hvw _ ih =>
      obtain ⟨hmember, hothers⟩ := Bool.and_eq_true_iff.1 hlist
      obtain ⟨hplace, hrest⟩ := List.forall₂_cons.1 h
      have hmember' : isMember w = true := isMember_congr hvw ▸ hmember
      rw [outcome_mergeMembers_cons hmember, outcome_mergeMembers_cons hmember', keyOf?_congr hvw]
      obtain ⟨a, rfl⟩ := exists_obj_of_isMember hmember
      obtain ⟨b, rfl⟩ := exists_obj_of_isMember hmember'
      cases keyOf? (.obj b) with
      | none => exact .error _ _
      | some key =>
          exact (matches_placeMember (fun target place hplaces => hplace.matches_mergeInto hplaces)
            key hmembers).bind fun next next' => ih hothers hrest

theorem succeeds_settle_list {items : List Json} (hlist : items.all isMember = true)
    (current : Option Json) :
    Succeeds (settle current (.arr items)) ↔
      (items = [] ∨ ((itemsOf? current).getD []).any isUnnameable = false) ∧
        Succeeds (mergeMembers items ((itemsOf? current).getD [])).outcome := by
  constructor
  · rintro ⟨result, hresult⟩
    obtain ⟨hold, members, hmerge, -⟩ := (settle_list hlist).1 hresult
    exact ⟨hold, members, Merged.outcome_eq_ok.2 hmerge⟩
  · rintro ⟨hold, members, hmerge⟩
    exact ⟨_, (settle_list hlist).2 ⟨hold, members, Merged.outcome_eq_ok.1 hmerge, rfl⟩⟩

theorem rel_itemsOf? {current other : Option Json} (h : Option.Rel (Equal eq) current other) :
    List.Forall₂ (Equal eq) ((itemsOf? current).getD []) ((itemsOf? other).getD []) := by
  cases h with
  | none => exact .nil
  | some h =>
      rcases h.forms with ⟨hv, hw⟩ | ⟨a, b, rfl, rfl, hitems⟩ | ⟨a, b, rfl, rfl, -⟩
      · rw [itemsOf?_of_nameKey? hv, itemsOf?_of_nameKey? hw]
        exact .nil
      · exact hitems
      · exact .nil

theorem allMembers_congr {items items' : List Json} (h : List.Forall₂ (Equal eq) items items') :
    items.all isMember = items'.all isMember := by
  induction h with
  | nil => rfl
  | cons hvw _ ih => rw [List.all_cons, List.all_cons, isMember_congr hvw, ih]

theorem matches_settle_list {items items' : List Json} (hlist : items.all isMember = true)
    (hequal : List.Forall₂ (Equal eq) items items')
    (h : List.Forall₂ (Congruent eq) items items') {current other : Option Json}
    (hplace : Option.Rel (Equal eq) current other) :
    Matches (Option.Rel (Equal eq)) (settle current (.arr items))
      (settle other (.arr items')) := by
  have hold := rel_itemsOf? hplace
  have hlist' : items'.all isMember = true := allMembers_congr hequal ▸ hlist
  obtain ⟨hiff, hmembers⟩ := matches_iff.1 (matches_mergeMembers hlist hequal h hold)
  refine matches_iff.2 ⟨?_, fun a b ha hb => ?_⟩
  · have hnil : items = [] ↔ items' = [] := by
      rw [← List.length_eq_zero_iff, hequal.length_eq, List.length_eq_zero_iff]
    have hnames : ((itemsOf? current).getD []).any isUnnameable =
        ((itemsOf? other).getD []).any isUnnameable :=
      any_congr (fun _ _ => isUnnameable_congr) hold
    rw [succeeds_settle_list hlist, succeeds_settle_list hlist', hiff, hnil, hnames]
  · obtain ⟨-, members, hmerge, rfl⟩ := (settle_list hlist).1 ha
    obtain ⟨-, others, hother, rfl⟩ := (settle_list hlist').1 hb
    exact .some (Json.Equal.arr_iff.2 (hmembers _ _ (Merged.outcome_eq_ok.2 hmerge)
      (Merged.outcome_eq_ok.2 hother)))

theorem congruent_arr {items items' : List Json} (hequal : List.Forall₂ (Equal eq) items items')
    (h : List.Forall₂ (Congruent eq) items items') : Congruent eq (.arr items) (.arr items') := by
  have hcopy : Matches (Equal eq) (copyValue (.arr items)) (copyValue (.arr items')) := by
    rw [copyValue, copyValue]
    exact (matches_copyItems h).map fun _ _ => Json.Equal.arr_iff.2
  refine ⟨fun current other hplace => ?_, hcopy⟩
  cases hlist : items.all isMember with
  | true => exact matches_settle_list hlist hequal h hplace
  | false =>
      rw [settle_of_replaces (v := .arr items) hlist,
        settle_of_replaces (v := .arr items') ((allMembers_congr hequal).symm.trans hlist)]
      exact hcopy.map fun _ _ => .some

/-- Merging is congruent: it respects equality up to the order of keys. -/
theorem congruent_of_equal {v w : Json} (h : Equal eq v w) :
    v.WellKeyed → w.WellKeyed → Congruent eq v w := by
  induction h with
  | @name v w hname h =>
      intro _ _
      have hname' : w.nameKey?.isSome := eq.nameKey?_eq h ▸ hname
      have hequal : Equal eq v w := .name hname h
      refine ⟨fun current other _ => ?_, ?_⟩
      · rw [settle_of_nameKey? hname, settle_of_nameKey? hname']
        exact .ok (.some hequal)
      · rw [copyValue_of_nameKey? hname, copyValue_of_nameKey? hname']
        exact .ok hequal
  | @arr a b c hlength h hperm ih =>
      intro hv hw
      obtain rfl := hperm.resolve_right And.left
      refine congruent_arr (List.forall₂_iff_get.2 ⟨hlength, h⟩)
        (List.forall₂_iff_get.2 ⟨hlength, fun i hi hi' => ih i hi hi' ?_ ?_⟩)
      · exact Json.throughout_arr.1 hv _ (List.get_mem a ⟨i, hi⟩)
      · exact Json.throughout_arr.1 hw _ (List.get_mem b ⟨i, hi'⟩)
  | @obj a b hkeys h ih =>
      intro hv hw
      obtain ⟨hnodup, hvalues⟩ := Json.throughout_obj.1 hv
      obtain ⟨hnodup', hvalues'⟩ := Json.throughout_obj.1 hw
      refine congruent_obj hnodup hnodup' hkeys fun key x y hx hy => ih key x y hx hy ?_ ?_
      · exact hvalues _ (Fields.mem_of_get? hx)
      · exact hvalues' _ (Fields.mem_of_get? hy)

end ApiTypings.Document
