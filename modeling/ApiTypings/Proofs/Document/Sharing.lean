import ApiTypings.Proofs.Document.Depth
import ApiTypings.Proofs.Document.Lookup

/-!
Documents that are shared out to two.

A type may be described by several records. If the fields of a document are shared out to two
others, where each has the name and a list of members may be cut in two, then merging these two, one
after the other, comes to the same as merging the document, whatever stands there already. The two
members lists are merged one behind the other, and the members that come of the first of them can be
compared because a member keeps the name under which it was merged.
-/

namespace ApiTypings

/-- A value in which no object has a repeated key. -/
def Json.WellKeyed (v : Json) : Prop := v.Throughout fun fields => fields.keys.Nodup

namespace Document

/-- What two documents have of a value under a key: one of them has it, or each has a part of a list
of members. -/
inductive Portions : Option Json → Option Json → Option Json → Prop
  | first (v? : Option Json) : Portions v? v? none
  | second (v? : Option Json) : Portions v? none v?
  | cut {front back : List Json} (hfront : front ≠ []) (hback : back ≠ [])
      (hlist : isMemberList (front ++ back) = true) :
      Portions (some (.arr (front ++ back))) (some (.arr front)) (some (.arr back))

/-- A document of some name that is shared out to two others of that name. -/
structure SharedOut (name : String) (doc first second : Fields) : Prop where
  wellKeyed : (Json.obj doc).WellKeyed
  keys_first : first.keys.Nodup
  keys_second : second.keys.Nodup
  name_ne : name ≠ ""
  name_doc : doc.get? "name" = some (.str name)
  name_first : first.get? "name" = some (.str name)
  name_second : second.get? "name" = some (.str name)
  portions : ∀ key, key ≠ "name" → Portions (doc.get? key) (first.get? key) (second.get? key)

/-! ### Lists of members -/

/-- Merging one list behind another. -/
theorem mergeMembers_append (front back : List Json) (members : List Json) :
    mergeMembers (front ++ back) members =
      match (mergeMembers front members).fault with
      | none => mergeMembers back (mergeMembers front members).value
      | some _ => mergeMembers front members := by
  induction front generalizing members with
  | nil => rfl
  | cons v rest ih =>
      cases v with
      | obj fields =>
          rw [List.cons_append, mergeMembers, mergeMembers]
          cases memberKey? fields with
          | none => rfl
          | some key =>
              dsimp only
              split
              · exact ih _
              · rfl
      | _ => exact ih members

/-- A member that is merged keeps its name. -/
theorem memberKey?_mergeFields {fields target : Fields} {key : NameKey} (hkeys : fields.keys.Nodup)
    (hkey : memberKey? fields = some key) (hok : (mergeFields fields target).fault = none) :
    memberKey? (mergeFields fields target).value = some key := by
  obtain ⟨name, hname, hnameKey⟩ := Option.bind_eq_some_iff.1 hkey
  have hoffer : offer fields "name" = some name := by rw [offer, if_neg (by decide), hname]
  have hscalar (current : Option Json) : (mergeValue name current).value = some name := by
    cases name with
    | arr items => simp [Json.nameKey?] at hnameKey
    | obj members => simp [Json.nameKey?] at hnameKey
    | _ => rfl
  have hvalue := (mergeFields_by_key hkeys _).2 hok "name"
  rw [hoffer, settleValue, hscalar, Option.some_or] at hvalue
  rw [memberKey?, hvalue, Option.bind_some, hnameKey]

theorem nameable_placeMember {merge : Fields → Merged Fields} {key : NameKey}
    {members : List Json}
    (hmerge : ∀ target, (merge target).fault = none → memberKey? (merge target).value = some key)
    (h : members.any isUnnameable = false)
    (hok : (placeMember merge key members).fault = none) :
    (placeMember merge key members).value.any isUnnameable = false := by
  have hnew (target : Fields) (hfault : (merge target).fault = none) :
      isUnnameable (.obj (merge target).value) = false := by
    simp [isUnnameable, hmerge target hfault]
  fun_induction placeMember merge key members with
  | case1 r =>
      -- The new member is the first of its name and stands alone.
      have hfault : r.fault = none := hok
      simpa [hfault] using hnew [] hfault
  | case2 fields rest hkey r =>
      rw [List.any_cons, Bool.or_eq_false_iff] at h ⊢
      exact ⟨hnew fields hok, h.2⟩
  | case3 fields rest hkey r ih =>
      rw [List.any_cons, Bool.or_eq_false_iff] at h ⊢
      exact ⟨h.1, ih h.2 hok⟩
  | case4 v rest hv r ih =>
      rw [List.any_cons, Bool.or_eq_false_iff] at h ⊢
      exact ⟨h.1, ih h.2 hok⟩

/-- After a merge of members the names can be compared if they could before. -/
theorem nameable_mergeMembers {items members : List Json} (hitems : ∀ v ∈ items, v.WellKeyed)
    (h : members.any isUnnameable = false) (hok : (mergeMembers items members).fault = none) :
    (mergeMembers items members).value.any isUnnameable = false := by
  induction items generalizing members with
  | nil => exact h
  | cons v rest ih =>
      obtain ⟨hv, hrest⟩ := List.forall_mem_cons.1 hitems
      cases v with
      | obj fields =>
          rw [mergeMembers] at hok ⊢
          cases hkey : memberKey? fields with
          | none => simp [hkey] at hok
          | some key =>
              rw [hkey] at hok
              dsimp only at hok ⊢
              split at hok
              next hplaced =>
                refine ih hrest (nameable_placeMember ?_ h hplaced) hok
                exact fun target => memberKey?_mergeFields hv.1 hkey
              · simp at hok
      | _ => exact ih hrest h hok

/-- A list of members is merged member by member, unless a member that is there has a name that
cannot be compared. -/
theorem mergeValue_members {items : List Json} (hlist : isMemberList items = true)
    (current : Option Json) :
    ((mergeValue (.arr items) current).fault = none ↔
        ((itemsOf? current).getD []).any isUnnameable = false ∧
          (mergeMembers items ((itemsOf? current).getD [])).fault = none) ∧
      ((mergeValue (.arr items) current).fault = none → (mergeValue (.arr items) current).value =
        some (.arr (mergeMembers items ((itemsOf? current).getD [])).value)) := by
  rw [mergeValue, if_pos hlist]
  dsimp only
  cases ((itemsOf? current).getD []).any isUnnameable with
  | true => simp
  | false =>
      cases (mergeMembers items ((itemsOf? current).getD [])).fault <;> simp

/-! ### Values under one key -/

/-- Offering two values, one after the other, comes to the same as offering a third. -/
def Composes (whole one two current : Option Json) : Prop :=
  ((settleValue whole current).fault = none ↔ (settleValue one current).fault = none ∧
      (settleValue two (settleValue one current).value).fault = none) ∧
    ((settleValue whole current).fault = none →
      (settleValue two (settleValue one current).value).value = (settleValue whole current).value)

theorem composes_members {front back : List Json} (hfront : front ≠ []) (hback : back ≠ [])
    (hlist : isMemberList (front ++ back) = true) (hkeys : ∀ v ∈ front, v.WellKeyed)
    (current : Option Json) :
    Composes (some (.arr (front ++ back))) (some (.arr front)) (some (.arr back)) current := by
  have hall : (front ++ back).all isMember = true := (Bool.and_eq_true_iff.1 hlist).2
  rw [List.all_append, Bool.and_eq_true] at hall
  have hlist₁ : isMemberList front = true := by simp [isMemberList, hfront, hall.1]
  have hlist₂ : isMemberList back = true := by simp [isMemberList, hback, hall.2]
  obtain ⟨hwhole, hvalue⟩ := mergeValue_members hlist current
  obtain ⟨hone, hvalue₁⟩ := mergeValue_members hlist₁ current
  rw [mergeMembers_append] at hwhole hvalue
  simp only [Composes, settleValue]
  by_cases hfault₁ : (mergeValue (.arr front) current).fault = none
  · obtain ⟨hold, hok⟩ := hone.1 hfault₁
    rw [hvalue₁ hfault₁, Option.some_or]
    -- What came of the first part is a list of members that can be compared.
    obtain ⟨htwo, hvalue₂⟩ := mergeValue_members hlist₂
      (some (.arr (mergeMembers front ((itemsOf? current).getD [])).value))
    have hitems (items : List Json) : itemsOf? (some (.arr items)) = some items := rfl
    simp only [hitems, Option.getD_some, nameable_mergeMembers hkeys hold hok, true_and]
      at htwo hvalue₂
    simp only [hok, hold, true_and] at hwhole hvalue
    refine ⟨by rw [hwhole, htwo]; simp [hfault₁], fun hfault => ?_⟩
    rw [hvalue hfault, hvalue₂ (htwo.2 (hwhole.1 hfault))]
    rfl
  · -- What ends the first part ends the whole, for that begins with it.
    have hnot : ¬(mergeValue (.arr (front ++ back)) current).fault = none := by
      intro hfault
      obtain ⟨hold, hok⟩ := hwhole.1 hfault
      refine hfault₁ (hone.2 ⟨hold, ?_⟩)
      split at hok
      next hnone => exact hnone
      · exact hok
    exact ⟨⟨fun hfault => absurd hfault hnot, fun hboth => absurd hboth.1 hfault₁⟩,
      fun hfault => absurd hfault hnot⟩

theorem Portions.composes {whole one two : Option Json} (h : Portions whole one two)
    (hkeys : ∀ v, whole = some v → v.WellKeyed) (current : Option Json) :
    Composes whole one two current := by
  cases h with
  | first => simp [Composes, settleValue]
  | second => simp [Composes, settleValue]
  | cut hfront hback hlist =>
      have hitems := Json.throughout_arr.1 (hkeys _ rfl)
      exact composes_members hfront hback hlist
        (fun v hv => hitems v (List.mem_append_left _ hv)) current

/-! ### Whole documents -/

namespace SharedOut

variable {name : String} {doc first second target : Fields}

theorem composes (h : SharedOut name doc first second) (key : String) (current : Option Json) :
    Composes (offer doc key) (offer first key) (offer second key) current := by
  by_cases hskipped : key = skippedField
  · simp [Composes, offer, hskipped, settleValue]
  · simp only [offer, if_neg hskipped]
    by_cases hname : key = "name"
    · subst hname
      rw [h.name_doc, h.name_first, h.name_second]
      simp [Composes, settleValue, mergeValue]
    · refine (h.portions key hname).composes (fun v hv => ?_) current
      exact (Json.throughout_obj.1 h.wellKeyed).2 _ (Fields.mem_of_get? hv)

/-- The two can be merged just if the document can. -/
theorem mergeInto_ok_iff (h : SharedOut name doc first second) (target : Fields) :
    (∃ d, mergeInto target doc = .ok d) ↔
      ∃ mid, mergeInto target first = .ok mid ∧ ∃ d, mergeInto mid second = .ok d := by
  have hdoc := (mergeFields_by_key h.wellKeyed.1 target).1
  have hfirst := (mergeFields_by_key h.keys_first target).1
  constructor
  · intro hok
    have hall := hdoc.1 (mergeInto_eq_ok_iff.1 hok)
    have hboth (key : String) := (h.composes key (target.get? key)).1.1 (hall key)
    obtain ⟨mid, hmid⟩ := mergeInto_eq_ok_iff.2 (hfirst.2 fun key => (hboth key).1)
    have hsecond := (mergeFields_by_key h.keys_second mid).1
    refine ⟨mid, hmid, mergeInto_eq_ok_iff.2 (hsecond.2 fun key => ?_)⟩
    rw [get?_of_mergeInto h.keys_first hmid]
    exact (hboth key).2
  · rintro ⟨mid, hmid, hok⟩
    have hone := hfirst.1 (mergeInto_eq_ok_iff.1 ⟨mid, hmid⟩)
    have htwo := (mergeFields_by_key h.keys_second mid).1.1 (mergeInto_eq_ok_iff.1 hok)
    refine mergeInto_eq_ok_iff.2 (hdoc.2 fun key => (h.composes key (target.get? key)).1.2 ?_)
    have htwo := htwo key
    rw [get?_of_mergeInto h.keys_first hmid] at htwo
    exact ⟨hone key, htwo⟩

/-- Merging the two, one after the other, comes to the same as merging the document. -/
theorem mergeInto_eq (h : SharedOut name doc first second) :
    ((mergeInto target first).bind fun mid => mergeInto mid second).map Fields.get? =
      (mergeInto target doc).map Fields.get? := by
  cases hwhole : mergeInto target doc with
  | ok d =>
      obtain ⟨mid, hmid, d', hd'⟩ := (h.mergeInto_ok_iff target).1 ⟨d, hwhole⟩
      rw [hmid, Except.bind, hd']
      refine congrArg Except.ok (funext fun key => ?_)
      have hfault := (mergeFields_by_key h.wellKeyed.1 target).1.1
        (mergeInto_eq_ok_iff.1 ⟨d, hwhole⟩) key
      rw [get?_of_mergeInto h.keys_second hd', get?_of_mergeInto h.keys_first hmid,
        get?_of_mergeInto h.wellKeyed.1 hwhole]
      exact (h.composes key (target.get? key)).2 hfault
  | error fault =>
      -- There is only one fault that a merge can have, wherever it is met.
      obtain rfl := mergeInto_fault hwhole
      have hnot := mt (h.mergeInto_ok_iff target).2 (by simp [hwhole])
      cases hfirst : mergeInto target first with
      | error f =>
          obtain rfl := mergeInto_fault hfirst
          rfl
      | ok mid =>
          rw [Except.bind]
          cases hsecond : mergeInto mid second with
          | error f =>
              obtain rfl := mergeInto_fault hsecond
              rfl
          | ok d => exact absurd ⟨mid, hfirst, d, hsecond⟩ hnot

/-- That is so wherever the document stands among others. -/
theorem mergeAll_eq (h : SharedOut name doc first second) (before after : List Fields) :
    (mergeAll (before ++ first :: second :: after)).map Fields.get? =
      (mergeAll (before ++ doc :: after)).map Fields.get? := by
  induction after using List.reverseRecOn with
  | nil =>
      have hsplit : before ++ [first, second] = (before ++ [first]) ++ [second] := by simp
      rw [hsplit, mergeAll_concat, mergeAll_concat, mergeAll_concat]
      cases mergeAll before with
      | error fault => rfl
      | ok target => exact h.mergeInto_eq
  | append_singleton after last ih =>
      have hsplit (docs : List Fields) : before ++ (docs ++ (after ++ [last])) =
          (before ++ (docs ++ after)) ++ [last] := by simp
      have hshared := hsplit [first, second]
      have hwhole := hsplit [doc]
      simp only [List.cons_append, List.nil_append] at hshared hwhole
      rw [hshared, hwhole, mergeAll_concat, mergeAll_concat]
      exact bind_mergeInto_congr ih

end SharedOut

end Document

end ApiTypings
