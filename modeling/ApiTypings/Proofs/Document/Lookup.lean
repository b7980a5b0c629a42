import ApiTypings.Api.Reading
import ApiTypings.Proofs.Namespace.Content

/-!
Documents as functions of their keys.

What is read from a document is read under its keys, so that two documents with the same values
under all keys, in whatever order, are as good as one. Merging into them gives such documents again.
If no key of the merged document is repeated, a merge can be told key by key: what comes to stand
under a key depends on nothing but what stood there and what the merged document offers for it.
-/

namespace ApiTypings

namespace Fields

theorem get_congr {a b : Fields} (h : a.get? = b.get?) : a.get = b.get :=
  funext fun key => by rw [get, get, h]

theorem isEmpty_congr {a b : Fields} (h : a.get? = b.get?) : a.isEmpty = b.isEmpty := by
  have hcons (entry : String × Json) (rest : Fields) :
      ¬Fields.get? (entry :: rest) = Fields.get? [] := fun heq => by
    obtain ⟨k, v⟩ := entry
    simpa using congrFun heq k
  cases a with
  | nil =>
      cases b with
      | nil => rfl
      | cons entry rest => exact absurd h.symm (hcons entry rest)
  | cons entry rest =>
      cases b with
      | nil => exact absurd h (hcons entry rest)
      | cons _ _ => rfl

theorem get?_of_mem {fields : Fields} (hkeys : fields.keys.Nodup) {key : String} {v : Json}
    (h : (key, v) ∈ fields) : fields.get? key = some v := by
  refine get?_of_unique fun w => ⟨fun hw => ?_, fun hw => hw ▸ h⟩
  exact (Prod.mk.inj (List.inj_on_of_nodup_map hkeys hw h rfl)).2

/-- The order of fields with different keys is of no account when one is looked up. -/
theorem get?_perm {fields other : Fields} (hkeys : fields.keys.Nodup) (h : other.Perm fields) :
    other.get? = fields.get? := by
  have hkeysOther : other.keys.Nodup := (h.map Prod.fst).nodup_iff.2 hkeys
  funext key
  cases hv : fields.get? key with
  | some v => exact get?_of_mem hkeysOther (h.mem_iff.2 (mem_of_get? hv))
  | none =>
    refine get?_of_not_mem_keys fun hmem => ?_
    obtain ⟨entry, hentry, rfl⟩ := List.mem_map.1 hmem
    have hfound := get?_of_mem hkeys (h.mem_iff.1 hentry)
    rw [hv] at hfound
    cases hfound

end Fields

theorem TypeRecord.ofFields_congr {a b : Fields} (h : a.get? = b.get?) (fallback : String) :
    ofFields a fallback = ofFields b fallback := by
  simp only [ofFields, nameOf, extendsOf?, Fields.get_congr h]

namespace Document

variable {a b : Fields}

theorem get?_store (target : Fields) (k : String) (v? : Option Json) (key : String) :
    (store target k v?).get? key = if k = key then v?.or (target.get? k) else target.get? key := by
  cases v? with
  | none =>
      rw [store, Option.none_or]
      split
      next h => rw [h]
      · rfl
  | some v => rw [store, Fields.get?_set, Option.some_or]

/-- A merge reads its target by the keys. -/
theorem mergeFields_congr (source : Fields) (h : a.get? = b.get?) :
    (mergeFields source a).fault = (mergeFields source b).fault ∧
      (mergeFields source a).value.get? = (mergeFields source b).value.get? := by
  induction source generalizing a b with
  | nil => exact ⟨rfl, h⟩
  | cons entry rest ih =>
      obtain ⟨key, v⟩ := entry
      have hstore : (store a key (mergeValue v (b.get? key)).value).get? =
          (store b key (mergeValue v (b.get? key)).value).get? :=
        funext fun k => by rw [get?_store, get?_store, h]
      rw [mergeFields, mergeFields, h]
      split
      · exact ih h
      · dsimp only
        split
        · exact ih hstore
        · exact ⟨rfl, hstore⟩

theorem mergeInto_congr {source : Fields} (h : a.get? = b.get?) :
    (mergeInto a source).map Fields.get? = (mergeInto b source).map Fields.get? := by
  obtain ⟨hfault, hvalue⟩ := mergeFields_congr source h
  rw [mergeInto, mergeInto, hfault]
  split
  · exact congrArg Except.ok hvalue
  · rfl

/-- Merging one more document into what cannot be told apart gives what cannot be told apart. -/
theorem bind_mergeInto_congr {x y : Except Fault Fields} {source : Fields}
    (h : x.map Fields.get? = y.map Fields.get?) :
    (x.bind fun target => mergeInto target source).map Fields.get? =
      (y.bind fun target => mergeInto target source).map Fields.get? := by
  cases x with
  | error fault =>
      cases y with
      | error fault' => exact congrArg Except.error (Except.error.inj h)
      | ok doc => simp [Except.map] at h
  | ok doc =>
      cases y with
      | error fault => simp [Except.map] at h
      | ok doc' => exact mergeInto_congr (Except.ok.inj h)

/-! ### Key by key -/

/-- What a document offers to a merge under a key. -/
def offer (source : Fields) (key : String) : Option Json :=
  if key = skippedField then none else source.get? key

/-- What comes of the value under a key if another one is offered for it. -/
def settleValue (offered current : Option Json) : Merged (Option Json) :=
  match offered with
  | none => ⟨current, none⟩
  | some v =>
    let r := mergeValue v current
    ⟨r.value.or current, r.fault⟩

theorem offer_cons (k : String) (v : Json) (rest : Fields) (key : String) :
    offer ((k, v) :: rest) key =
      if k = key ∧ k ≠ skippedField then some v else offer rest key := by
  by_cases hkey : key = skippedField
  · subst hkey
    simp only [offer, if_pos]
    split
    next h => exact absurd h.1 h.2
    · rfl
  · simp only [offer, if_neg hkey, Fields.get?_cons]
    by_cases hk : k = key
    · simp [hk, hkey]
    · simp [hk]

theorem offer_eq_none {source : Fields} {key : String} (h : key ∉ source.keys) :
    offer source key = none := by
  rw [offer, Fields.get?_of_not_mem_keys h, ite_self]

/-- A document without repeated keys is merged key by key: a fault under one of them ends it, and
otherwise each key has what came of the value under it. -/
theorem mergeFields_by_key {source : Fields} (hkeys : source.keys.Nodup) (target : Fields) :
    ((mergeFields source target).fault = none ↔
        ∀ key, (settleValue (offer source key) (target.get? key)).fault = none) ∧
      ((mergeFields source target).fault = none → ∀ key,
        (mergeFields source target).value.get? key =
          (settleValue (offer source key) (target.get? key)).value) := by
  induction source generalizing target with
  | nil => simp [mergeFields, offer, settleValue]
  | cons entry rest ih =>
      obtain ⟨k, v⟩ := entry
      obtain ⟨hk, hrest⟩ := List.nodup_cons.1 hkeys
      rw [mergeFields]
      split
      next hskipped =>
        have hoffer (key : String) : offer ((k, v) :: rest) key = offer rest key := by
          simp [offer_cons, hskipped]
        simp only [hoffer]
        exact ih hrest _
      next hskipped =>
        have hself : offer ((k, v) :: rest) k = some v := by simp [offer_cons, hskipped]
        have hother (key : String) (hne : k ≠ key) :
            offer ((k, v) :: rest) key = offer rest key := by simp [offer_cons, hne]
        dsimp only
        split
        next hfault =>
          -- What is stored first is not touched again, and nothing else has changed.
          have hstep (key : String) :
              settleValue (offer ((k, v) :: rest) key) (target.get? key) =
                settleValue (offer rest key)
                  ((store target k (mergeValue v (target.get? k)).value).get? key) := by
            rw [get?_store]
            by_cases hne : k = key
            · subst hne
              rw [hself, offer_eq_none hk, if_pos rfl, settleValue, settleValue, hfault]
            · rw [hother key hne, if_neg hne]
          simp only [hstep]
          exact ih hrest _
        next fault hfault =>
          refine ⟨⟨by simp, fun hall => ?_⟩, by simp⟩
          simpa [hself, settleValue, hfault] using hall k

theorem mergeInto_eq_ok_iff {source target : Fields} :
    (∃ doc, mergeInto target source = .ok doc) ↔ (mergeFields source target).fault = none := by
  rw [mergeInto]
  cases (mergeFields source target).fault <;> simp

/-- A document that is merged has under each key what came of the value there. -/
theorem get?_of_mergeInto {source target doc : Fields} (hkeys : source.keys.Nodup)
    (h : mergeInto target source = .ok doc) (key : String) :
    doc.get? key = (settleValue (offer source key) (target.get? key)).value := by
  have hfault := mergeInto_eq_ok_iff.1 ⟨doc, h⟩
  rw [mergeInto_eq_ok hfault] at h
  obtain rfl := Except.ok.inj h
  exact (mergeFields_by_key hkeys _).2 hfault key

end Document

end ApiTypings
