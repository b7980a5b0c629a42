import ApiTypings.Proofs.Document.Congruence
import ApiTypings.Proofs.Document.Gathering
import Mathlib.Data.List.Perm.Basic

/-!
Documents that complement each other.

Two documents that describe different parts of a type, and agree where they describe the same, are
merged to the same result in either order, but for the order of keys and of members. Under a key or
a name that is in only one of them there is but one value to merge; where there are two, these
complement each other in their turn. That the values agree need not mean that they have their keys
in one order, so that equal values are merged by congruence.
-/

namespace ApiTypings

namespace Json

/-- Equality up to the order of keys and of the items in lists of members. -/
def Rearranged (eq : Sameness) : Json → Json → Prop :=
  Agrees eq fun items => items.all Document.isMember = true

/-- A list of objects that are named by text, each by a name of its own. -/
def TellsApart (items : List Json) : Prop :=
  (∀ v ∈ items, v.textName?.isSome) ∧ (items.filterMap textName?).Nodup

/-- Values of which one does not contradict the other. -/
inductive Compatible (eq : Sameness) : Json → Json → Prop
  | objects {a b : Fields}
      (h : ∀ key v w, key ≠ Document.skippedField → a.get? key = some v → b.get? key = some w →
        Compatible eq v w) : Compatible eq (.obj a) (.obj b)
  | members {a b : List Json} (ha : TellsApart a) (hb : TellsApart b)
      (h : ∀ v ∈ a, ∀ w ∈ b, v.textName? = w.textName? → Compatible eq v w) :
      Compatible eq (.arr a) (.arr b)
  | emptyLeft (items : List Json) : Compatible eq (.arr []) (.arr items)
  | emptyRight (items : List Json) : Compatible eq (.arr items) (.arr [])
  | equal {v w : Json} (h : Equal eq v w) : Compatible eq v w

variable {eq : Sameness} {v w : Json}

theorem Rearranged.refl (v : Json) : Rearranged eq v v := Agrees.refl v

theorem Equal.rearranged (h : Equal eq v w) : Rearranged eq v w := h.mono fun _ => False.elim

end Json

namespace Document

open Success
open Json (Rearranged TellsApart Compatible)

variable {eq : Sameness}

/-! ### Values in one place -/

theorem rel_self {α : Type} {R : α → α → Prop} (hR : ∀ a, R a a) : ∀ x : Option α, Option.Rel R x x
  | none => .none
  | some a => .some (hR a)

/-- Values that come to the same when they are merged into an empty place, one after another. -/
def Coincide (eq : Sameness) (vs ws : List Json) : Prop :=
  Matches (Option.Rel (Rearranged eq)) (settleAll none vs) (settleAll none ws)

theorem Coincide.refl (vs : List Json) : Coincide eq vs vs :=
  matches_self (rel_self Rearranged.refl) _

theorem coincide_of_eq {vs ws : List Json} (h : settleAll none vs = settleAll none ws) :
    Coincide eq vs ws := by
  rw [Coincide, h]
  exact Coincide.refl ws

/-- The order of two values that may be absent is of no account if it is of none for two values that
are there. -/
theorem coincide_pair {x y : Option Json}
    (h : ∀ v w, x = some v → y = some w → Coincide eq [v, w] [w, v]) :
    Coincide eq (x.toList ++ y.toList) (y.toList ++ x.toList) := by
  cases x with
  | none =>
      rw [Option.toList_none, List.nil_append, List.append_nil]
      exact Coincide.refl _
  | some v =>
      cases y with
      | none => exact Coincide.refl [v]
      | some w => exact h v w rfl rfl

/-- A list finds in an empty list what it finds in an empty place. -/
theorem settle_emptyList (items : List Json) :
    settle (some (.arr [])) (.arr items) = settle none (.arr items) := by
  rw [settle, settle, settleValue, settleValue, mergeValue, mergeValue]
  dsimp only [itemsOf?, Option.getD]
  split
  · rcases mergeMembers items [] with ⟨members, _ | fault⟩ <;> rfl
  · cases items with
    | nil => rfl
    | cons v rest => rcases copyItems (v :: rest) with fault | copied <;> rfl

theorem exists_list_of_settle {current result : Option Json} {items : List Json}
    (h : settle current (.arr items) = .ok result) : ∃ members, result = some (.arr members) := by
  cases hlist : items.all isMember with
  | true =>
      obtain ⟨-, members, -, hresult⟩ := (settle_list hlist).1 h
      exact ⟨members, hresult⟩
  | false =>
      rw [settle_of_replaces (v := .arr items) hlist, copyValue] at h
      obtain ⟨w, hw, rfl⟩ := map_eq_ok.1 h
      obtain ⟨copied, -, rfl⟩ := map_eq_ok.1 hw
      exact ⟨copied, rfl⟩

/-- An empty list leaves the place to what comes next, and adds nothing to what came before. -/
theorem settleAll_empty_comm (items : List Json) :
    settleAll none [.arr [], .arr items] = settleAll none [.arr items, .arr []] := by
  have hempty : settle none (.arr []) = .ok (some (.arr [])) := rfl
  have hfirst : settleAll none [.arr [], .arr items] = settle none (.arr items) := by
    rw [settleAll_cons, hempty]
    exact (settleAll_singleton _ _).trans (settle_emptyList items)
  rw [hfirst, settleAll_cons]
  cases hnext : settle none (.arr items) with
  | error fault => rfl
  | ok result =>
      obtain ⟨members, rfl⟩ := exists_list_of_settle hnext
      rfl

theorem matches_objects {a b : Fields} (ha : a.keys.Nodup) (hb : b.keys.Nodup)
    (h : ∀ key v w, key ≠ skippedField → a.get? key = some v → b.get? key = some w →
      Coincide eq [v, w] [w, v]) :
    Matches (fun d d' => Rearranged eq (.obj d) (.obj d')) (mergeOnto [] [a, b])
      (mergeOnto [] [b, a]) := by
  refine (matches_mergeOnto (R := Option.Rel (Rearranged eq)) (by simp [ha, hb])
    (by simp [ha, hb]) fun key => ?_).imp fun d d' => Json.Agrees.obj_of_rel
  have htwo (first second : Fields) :
      offersOf [first, second] key = (offer first key).toList ++ (offer second key).toList := by
    rw [offersOf_cons, offersOf_cons]
    exact congrArg _ (List.append_nil _)
  rw [htwo, htwo]
  refine coincide_pair fun v w hv hw => ?_
  rw [offer, Option.ite_none_left_eq_some] at hv hw
  exact h key v w hv.1 hv.2 hw.2

/-! ### Lists of members -/

theorem membersOf_eq_toList {items : List Json} (h : (items.filterMap keyOf?).Nodup)
    (key : NameKey) : membersOf key items = (memberAt? key items).toList := by
  induction items with
  | nil => rfl
  | cons v rest ih =>
      rw [membersOf_cons, memberAt?_cons]
      split
      next hkey =>
        rw [List.filterMap_cons, hkey] at h
        have hnone : membersOf key rest = [] :=
          not_not.1 (membersOf_ne_nil.not.2 (List.nodup_cons.1 h).1)
        rw [hnone, Option.toList_some]
      · refine ih (h.sublist ?_)
        exact (List.sublist_cons_self v rest).filterMap keyOf?

theorem names_of_tellsApart {items : List Json} (h : TellsApart items) :
    items.all isMember = true ∧ (∀ v ∈ items, (keyOf? v).isSome) ∧
      (items.filterMap keyOf?).Nodup := by
  refine ⟨List.all_eq_true.2 fun v hv => isMember_of_textName? (h.1 v hv), fun v hv => ?_, ?_⟩
  · obtain ⟨name, hname⟩ := Option.isSome_iff_exists.1 (h.1 v hv)
    rw [keyOf?_eq_text.2 hname]
    rfl
  · rw [filterMap_keyOf? h.1]
    exact h.2.map fun _ _ => NameKey.text.inj

theorem forall₂_of_common {α β γ : Type} {P : α → β → Prop} {Q : α → γ → Prop} {R : β → γ → Prop}
    (hPQ : ∀ a b c, P a b → Q a c → R b c) {as : List α} {bs : List β} {cs : List γ}
    (h : List.Forall₂ P as bs) (h' : List.Forall₂ Q as cs) : List.Forall₂ R bs cs := by
  induction h generalizing cs with
  | nil =>
      cases h'
      exact .nil
  | cons hab _ ih =>
      cases h' with
      | cons hac hrest => exact .cons (hPQ _ _ _ hab hac) (ih hrest)

theorem isMember_of_memberAt? {key : NameKey} {members : List Json} {v : Json}
    (h : memberAt? key members = some v) : isMember v = true := by
  have hkey := keyOf?_of_memberAt? h
  cases v with
  | obj fields =>
      obtain ⟨name, hname, -⟩ := Option.bind_eq_some_iff.1 hkey
      simp [isMember, Fields.has, hname]
  | _ => cases hkey

/-- Lists that hold nothing but the first members of their names are rearranged if the names are and
the members of each name are. -/
theorem rearranged_of_frame {members others : List Json} {names otherNames : List NameKey}
    (hframe : frame members = names.map .inr) (hother : frame others = otherNames.map .inr)
    (hnames : names.Perm otherNames)
    (h : ∀ key, Option.Rel (Rearranged eq) (memberAt? key members) (memberAt? key others)) :
    Rearranged eq (.arr members) (.arr others) := by
  have hfills := fills_frame members
  have hfilled := fills_frame others
  rw [hframe, List.forall₂_map_left_iff] at hfills
  rw [hother, List.forall₂_map_left_iff] at hfilled
  -- The other list in the order of the names of this one.
  obtain ⟨moved, hmoved, hperm⟩ := List.perm_comp_forall₂ hnames hfilled
  have hitems : List.Forall₂ (Rearranged eq) members moved := by
    refine forall₂_of_common (fun key v w hv hw => ?_) hfills hmoved
    have hrel := h key
    rw [show memberAt? key members = some v from hv, show memberAt? key others = some w from hw]
      at hrel
    cases hrel with
    | some hvw => exact hvw
  have hmembers : moved.all isMember = true := by
    have hboth := (hmoved.imp fun key w hw => And.intro (isMember_of_memberAt? hw) hw).flip
    exact List.all_eq_true.2 ((List.forall₂_and_left _ _).1 hboth).1
  exact .arr_of_forall₂ hitems (.inr ⟨hmembers, hperm⟩)

theorem settleAll_lists {a b : List Json} {result : Option Json} (ha : a.all isMember = true)
    (hb : b.all isMember = true) (hkeys : ∀ v ∈ a, v.WellKeyed) :
    settleAll none [.arr a, .arr b] = .ok result ↔
      ∃ members, mergeMembers (a ++ b) [] = ⟨members, none⟩ ∧ result = some (.arr members) := by
  constructor
  · intro h
    have hlists : ∀ items ∈ [a, b], items.all isMember = true :=
      List.forall_mem_cons.2 ⟨ha, List.forall_mem_singleton.2 hb⟩
    have hflat : [a, b].flatten = a ++ b := by simp
    exact hflat ▸ mergeMembers_of_settleAll (List.cons_ne_nil a [b]) hlists h
  · rintro ⟨members, hmerge, rfl⟩
    rcases hmid : mergeMembers a [] with ⟨mid, _ | fault⟩
    · rw [mergeMembers_append_eq hmid] at hmerge
      exact settleAll_of_mergeMembers ha hb hkeys hmid hmerge
    · rw [mergeMembers_append, hmid] at hmerge
      cases hmerge

/-- Two lists of members, merged one after the other, are merged name by name. -/
theorem settleAll_lists_by_name {a b : List Json} (ha : TellsApart a) (hb : TellsApart b)
    (hkeys : ∀ v ∈ a, v.WellKeyed) (hkeys' : ∀ v ∈ b, v.WellKeyed) :
    (Succeeds (settleAll none [.arr a, .arr b]) ↔
        ∀ key, Succeeds (settleAll none (membersOf key (a ++ b)))) ∧
      ∀ result, settleAll none [.arr a, .arr b] = .ok result →
        ∃ members, result = some (.arr members) ∧
          frame members = ((a ++ b).filterMap keyOf?).eraseDups.map .inr ∧
          ∀ key, settleAll none (membersOf key (a ++ b)) = .ok (memberAt? key members) := by
  obtain ⟨hlist, hnamed, -⟩ := names_of_tellsApart ha
  obtain ⟨hlist', hnamed', -⟩ := names_of_tellsApart hb
  have hboth : (a ++ b).all isMember = true := by rw [List.all_append, hlist, hlist']; rfl
  have hwell : ∀ v ∈ a ++ b, v.WellKeyed := List.forall_mem_append.2 ⟨hkeys, hkeys'⟩
  have hnames : ∀ v ∈ a ++ b, (keyOf? v).isSome := List.forall_mem_append.2 ⟨hnamed, hnamed'⟩
  refine ⟨?_, fun result hresult => ?_⟩
  · have hfault : (mergeMembers (a ++ b) []).fault = none ↔
        ∀ key, Succeeds (settleAll none (membersOf key (a ++ b))) :=
      (mergeMembers_by_name hboth hwell []).1.trans (and_iff_right hnames)
    rw [← hfault, ← Merged.succeeds_outcome]
    constructor
    · rintro ⟨result, hresult⟩
      obtain ⟨members, hmerge, -⟩ := (settleAll_lists hlist hlist' hkeys).1 hresult
      exact ⟨members, Merged.outcome_eq_ok.2 hmerge⟩
    · rintro ⟨members, hmerge⟩
      exact ⟨_, (settleAll_lists hlist hlist' hkeys).2
        ⟨members, Merged.outcome_eq_ok.1 hmerge, rfl⟩⟩
  · obtain ⟨members, hmerge, rfl⟩ := (settleAll_lists hlist hlist' hkeys).1 hresult
    exact ⟨members, rfl, frame_of_mergeMembers hboth hwell hmerge,
      settleAll_memberAt? hboth hwell hmerge⟩

theorem textName?_eq_of_keyOf? {v w : Json} {key : NameKey} (hv : v.textName?.isSome)
    (hw : w.textName?.isSome) (hkey : keyOf? v = some key) (hkey' : keyOf? w = some key) :
    v.textName? = w.textName? := by
  obtain ⟨name, hname⟩ := Option.isSome_iff_exists.1 hv
  obtain ⟨other, hother⟩ := Option.isSome_iff_exists.1 hw
  rw [keyOf?_eq_text.2 hname, ← hkey', keyOf?_eq_text.2 hother] at hkey
  rw [hname, hother, NameKey.text.inj (Option.some.inj hkey)]

/-- Lists of members that complement each other can be merged in either order if the members of each
name can be. -/
theorem coincide_members {a b : List Json} (ha : TellsApart a) (hb : TellsApart b)
    (hkeys : ∀ v ∈ a, v.WellKeyed) (hkeys' : ∀ v ∈ b, v.WellKeyed)
    (h : ∀ v ∈ a, ∀ w ∈ b, v.textName? = w.textName? → Coincide eq [v, w] [w, v]) :
    Coincide eq [.arr a, .arr b] [.arr b, .arr a] := by
  have hname (key : NameKey) : Coincide eq (membersOf key (a ++ b)) (membersOf key (b ++ a)) := by
    rw [membersOf, membersOf, List.filter_append, List.filter_append, ← membersOf, ← membersOf,
      membersOf_eq_toList (names_of_tellsApart ha).2.2,
      membersOf_eq_toList (names_of_tellsApart hb).2.2]
    refine coincide_pair fun v w hv hw => ?_
    have hkey := keyOf?_of_memberAt? hv
    have hkey' := keyOf?_of_memberAt? hw
    have hmem := List.mem_of_find?_eq_some hv
    have hmem' := List.mem_of_find?_eq_some hw
    exact h v hmem w hmem' (textName?_eq_of_keyOf? (ha.1 v hmem) (hb.1 w hmem') hkey hkey')
  obtain ⟨hone, hresult⟩ := settleAll_lists_by_name ha hb hkeys hkeys'
  obtain ⟨htwo, hresult'⟩ := settleAll_lists_by_name hb ha hkeys' hkeys
  refine matches_iff.2 ⟨?_, fun x y hx hy => ?_⟩
  · rw [hone, htwo]
    exact forall_congr' fun key => (matches_iff.1 (hname key)).1
  · obtain ⟨members, rfl, hframe, hat⟩ := hresult x hx
    obtain ⟨others, rfl, hframe', hat'⟩ := hresult' y hy
    refine .some (rearranged_of_frame hframe hframe' ?_ fun key => ?_)
    · refine (List.perm_ext_iff_of_nodup (nodup_eraseDups _) (nodup_eraseDups _)).2 fun key => ?_
      simp only [List.mem_eraseDups, List.filterMap_append, List.mem_append, or_comm]
    · exact (matches_iff.1 (hname key)).2 _ _ (hat key) (hat' key)

/-- Values that complement each other come to the same in either order. -/
theorem coincide_of_compatible {v w : Json} (h : Compatible eq v w) :
    v.WellKeyed → w.WellKeyed → Coincide eq [v, w] [w, v] := by
  induction h with
  | @objects a b h ih =>
      intro hv hw
      obtain ⟨hnodup, hvalues⟩ := Json.throughout_obj.1 hv
      obtain ⟨hnodup', hvalues'⟩ := Json.throughout_obj.1 hw
      have hmatches := matches_objects hnodup hnodup' fun key x y hkey hx hy =>
        ih key x y hkey hx hy (hvalues _ (Fields.mem_of_get? hx))
          (hvalues' _ (Fields.mem_of_get? hy))
      have hone := settleAll_objects none (List.cons_ne_nil a [b])
      have htwo := settleAll_objects none (List.cons_ne_nil b [a])
      rw [List.map_cons, List.map_singleton] at hone htwo
      rw [Coincide, hone, htwo]
      exact hmatches.map fun d d' => .some
  | @members a b ha hb h ih =>
      intro hv hw
      have hkeys := Json.throughout_arr.1 hv
      have hkeys' := Json.throughout_arr.1 hw
      exact coincide_members ha hb hkeys hkeys' fun v hv w hw hname =>
        ih v hv w hw hname (hkeys v hv) (hkeys' w hw)
  | emptyLeft items => exact fun _ _ => coincide_of_eq (settleAll_empty_comm items)
  | emptyRight items => exact fun _ _ => coincide_of_eq (settleAll_empty_comm items).symm
  | @equal v w h =>
      intro hv hw
      -- The keys of the two may stand in different orders, so that they cannot just be exchanged.
      have hboth : List.Forall₂ (Congruent eq) [v, w] [w, v] :=
        .cons (congruent_of_equal h hv hw) (.cons (congruent_of_equal h.symm hw hv) .nil)
      refine (matches_settleAll hboth .none).imp fun x y hxy => ?_
      cases hxy with
      | none => exact .none
      | some h => exact .some h.rearranged

/-- Documents that complement each other are merged to the same, but for the order of keys and of
members, whichever comes first; and they can be merged if each name in a list can be compared. -/
theorem mergeAll_swap {a b : Fields} (ha : (Json.obj a).WellKeyed) (hb : (Json.obj b).WellKeyed)
    (h : Compatible eq (.obj a) (.obj b)) :
    (Succeeds (mergeAll [a, b]) ↔ Succeeds (mergeAll [b, a])) ∧
      (∀ ab ba, mergeAll [a, b] = .ok ab → mergeAll [b, a] = .ok ba →
        Rearranged eq (.obj ab) (.obj ba)) ∧
      ((Json.obj a).Nameable → (Json.obj b).Nameable → Succeeds (mergeAll [a, b])) := by
  have hpair (first second : Fields) : settleAll none [.obj first, .obj second] =
      (mergeAll [first, second]).map fun doc => some (.obj doc) :=
    settleAll_objects none (List.cons_ne_nil first [second])
  obtain ⟨hiff, hsame⟩ := matches_iff.1 (coincide_of_compatible h ha hb)
  rw [hpair, hpair] at hiff hsame
  rw [succeeds_map, succeeds_map] at hiff
  refine ⟨hiff, fun ab ba hab hba => ?_, fun hnames hnames' => ?_⟩
  · have hrel := hsame (some (.obj ab)) (some (.obj ba)) (by rw [hab]; rfl) (by rw [hba]; rfl)
    cases hrel with
    | some hrearranged => exact hrearranged
  · have hkeys : ∀ doc ∈ [a, b], (Json.obj doc).WellKeyed :=
      List.forall_mem_cons.2 ⟨ha, List.forall_mem_singleton.2 hb⟩
    obtain ⟨doc, hdoc, -⟩ := mergeOnto_nameable hkeys
      (List.forall_mem_cons.2 ⟨hnames, List.forall_mem_singleton.2 hnames'⟩) nameable_empty
    exact ⟨doc, hdoc⟩

/-- One half of a record: a method with its summary, one more method, and no events. -/
def summaryRecord : Fields :=
  [("name", .str "A"), ("events", .arr []),
    ("methods", .arr
      [.obj [("name", .str "m"), ("summary", .str "First.")], .obj [("name", .str "n")]])]

/-- The other half: the same method with what it returns, another one, and an event. -/
def returnsRecord : Fields :=
  [("methods", .arr
      [.obj [("name", .str "o")], .obj [("returns", .str "Number"), ("name", .str "m")]]),
    ("events", .arr [.obj [("name", .str "e")]]), ("since", .str "1.0"), ("name", .str "A")]

theorem compatible_halves :
    Compatible .identical (.obj summaryRecord) (.obj returnsRecord) := by
  refine .objects fun key v w _ hv hw => ?_
  simp only [summaryRecord, Fields.get?_cons, Fields.get?_nil] at hv
  split_ifs at hv with hname hevents hmethods
  · obtain rfl := hname
    obtain rfl := Option.some.inj hv
    obtain rfl := Option.some.inj hw
    exact .equal (Json.Agrees.refl _)
  · obtain rfl := hevents
    obtain rfl := Option.some.inj hv
    obtain rfl := Option.some.inj hw
    exact .emptyLeft _
  · obtain rfl := hmethods
    obtain rfl := Option.some.inj hv
    obtain rfl := Option.some.inj hw
    refine .members ?_ ?_ ?_
    · simp [TellsApart, Json.textName?, Json.fields?, Json.text?]
    · simp [TellsApart, Json.textName?, Json.fields?, Json.text?]
    · intro v hv w hw hname
      simp only [List.mem_cons, List.not_mem_nil, or_false] at hv hw
      obtain rfl | rfl := hv <;> obtain rfl | rfl := hw
      · simp [Json.textName?, Json.fields?, Json.text?] at hname
      · refine .objects fun key v w _ hv hw => ?_
        simp only [Fields.get?_cons, Fields.get?_nil] at hv
        split_ifs at hv with hkey hsummary
        · obtain rfl := hkey
          obtain rfl := Option.some.inj hv
          obtain rfl := Option.some.inj hw
          exact .equal (Json.Agrees.refl _)
        · obtain rfl := hsummary
          cases hw
      · simp [Json.textName?, Json.fields?, Json.text?] at hname
      · simp [Json.textName?, Json.fields?, Json.text?] at hname

theorem mergeAll_swap_halves :
    ((Json.obj summaryRecord).WellKeyed ∧ (Json.obj returnsRecord).WellKeyed ∧
        Compatible .identical (.obj summaryRecord) (.obj returnsRecord)) ∧
      ((Json.obj summaryRecord).Nameable ∧ (Json.obj returnsRecord).Nameable) ∧
      ∃ ab ba, mergeAll [summaryRecord, returnsRecord] = .ok ab ∧
        mergeAll [returnsRecord, summaryRecord] = .ok ba ∧
        Rearranged .identical (.obj ab) (.obj ba) := by
  have hkeys : (Json.obj summaryRecord).WellKeyed := by
    simp [summaryRecord, Json.WellKeyed, Json.Throughout, Json.ThroughoutItems,
      Json.ThroughoutValues, Fields.keys]
  have hkeys' : (Json.obj returnsRecord).WellKeyed := by
    simp [returnsRecord, Json.WellKeyed, Json.Throughout, Json.ThroughoutItems,
      Json.ThroughoutValues, Fields.keys]
  have hnames : (Json.obj summaryRecord).Nameable := by
    simp [summaryRecord, Json.Nameable, Json.EveryList, Json.EveryListInItems,
      Json.EveryListInValues, isUnnameable, memberKey?, Json.nameKey?]
  have hnames' : (Json.obj returnsRecord).Nameable := by
    simp [returnsRecord, Json.Nameable, Json.EveryList, Json.EveryListInItems,
      Json.EveryListInValues, isUnnameable, memberKey?, Json.nameKey?]
  obtain ⟨hiff, hsame, hok⟩ := mergeAll_swap hkeys hkeys' compatible_halves
  obtain ⟨ab, hab⟩ := hok hnames hnames'
  obtain ⟨ba, hba⟩ := hiff.1 ⟨ab, hab⟩
  exact ⟨⟨hkeys, hkeys', compatible_halves⟩, ⟨hnames, hnames'⟩, ab, ba, hab, hba,
    hsame ab ba hab hba⟩

/-- A record with a list in which the name of an object cannot be compared. -/
def unnameableRecord : Fields := [("x", .arr [.obj [("name", .arr [])]])]

/-- A record of that sort complements every record without the key, and cannot be merged with it. -/
theorem mergeAll_fails_unnameableRecord :
    ((Json.obj unnameableRecord).WellKeyed ∧ (Json.obj []).WellKeyed) ∧
      Compatible .identical (.obj unnameableRecord) (.obj []) ∧
      mergeAll [unnameableRecord, []] = .error .notAName ∧
      mergeAll [[], unnameableRecord] = .error .notAName := by
  refine ⟨⟨?_, wellKeyed_empty⟩, ?_, rfl, rfl⟩
  · simp [unnameableRecord, Json.WellKeyed, Json.Throughout, Json.ThroughoutItems,
      Json.ThroughoutValues, Fields.keys]
  · exact .objects fun key v w _ _ hw => by cases hw

end Document

end ApiTypings
