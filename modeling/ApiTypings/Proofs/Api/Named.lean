import ApiTypings.Proofs.Document.Named
import ApiTypings.Proofs.Exclusion.Inheritance

/-!
Records in which names are texts.

If whatever stands under `name` in a document is a text, then the record that is read from it names
its members, their parameters and the properties of its events by texts. Suppressing members leaves
fewer of them, so it stays that way when exclusions are resolved.
-/

namespace ApiTypings

def Json.IsText (v : Json) : Prop := ∃ s, v = .str s

structure Method.NamedByText (m : Method) : Prop where
  name : m.name.IsText
  parameters : ∀ p ∈ m.parameters, p.name.IsText

structure Event.NamedByText (e : Event) : Prop where
  name : e.name.IsText
  properties : ∀ p ∈ e.properties, p.name.IsText

/-- A record in which everything that has a name is named by text. -/
structure TypeRecord.NamedByText (record : TypeRecord) : Prop where
  properties : ∀ p ∈ record.properties, p.name.IsText
  methods : ∀ m ∈ record.methods, m.NamedByText
  events : ∀ e ∈ record.events, e.NamedByText

/-! ### Reading -/

theorem Fields.get_namedByText {fields : Fields} (h : (Json.obj fields).NamedByText)
    (key : String) : (fields.get key).NamedByText := by
  rw [get]
  cases hv : fields.get? key with
  | none => trivial
  | some v => exact (Json.throughout_obj.1 h).2 _ (mem_of_get? hv)

theorem Json.entries_namedByText {v entry : Json} (h : v.NamedByText) (hentry : entry ∈ v.entries) :
    entry.NamedByText := by
  cases v with
  | arr items => exact Json.throughout_arr.1 h entry hentry
  | obj fields =>
      obtain ⟨field, hfield, rfl⟩ := List.mem_map.1 hentry
      exact (Json.throughout_obj.1 h).2 field hfield
  | _ => exact absurd hentry List.not_mem_nil

/-- The members of a collection are named by text, and so is what they hold. -/
theorem Json.members_namedByText {v : Json} {m : Named} (h : v.NamedByText) (hm : m ∈ v.members) :
    m.name.IsText ∧ (Json.obj m.fields).NamedByText := by
  obtain ⟨entry, hentry, hnamed⟩ := List.mem_filterMap.1 hm
  have hfields := entries_namedByText h hentry
  cases entry with
  | obj fields =>
      cases hname : Fields.get? fields "name" with
      | none => simp [named?, hname] at hnamed
      | some name =>
          obtain ⟨s, -, rfl⟩ := hfields.1 name (Fields.mem_of_get? hname)
          obtain ⟨-, rfl⟩ : _ ∧ Named.mk (.str s) fields = m := by
            simpa [named?, hname] using hnamed
          exact ⟨⟨s, rfl⟩, hfields⟩
  | _ => simp [named?] at hnamed

section Members

variable {fields : Fields} {key : String}

theorem properties_namedByText (h : (Json.obj fields).NamedByText) :
    ∀ p ∈ (fields.get key).members.map Property.ofNamed, p.name.IsText :=
  List.forall_mem_map.2 fun _ hm => (Json.members_namedByText (Fields.get_namedByText h key) hm).1

theorem parameters_namedByText (h : (Json.obj fields).NamedByText) :
    ∀ p ∈ (fields.get key).members.map Parameter.ofNamed, p.name.IsText :=
  List.forall_mem_map.2 fun _ hm => (Json.members_namedByText (Fields.get_namedByText h key) hm).1

theorem methods_namedByText (h : (Json.obj fields).NamedByText) :
    ∀ m ∈ (fields.get key).members.map Method.ofNamed, m.NamedByText := by
  refine List.forall_mem_map.2 fun m hm => ?_
  obtain ⟨hname, hfields⟩ := Json.members_namedByText (Fields.get_namedByText h key) hm
  exact ⟨hname, parameters_namedByText hfields⟩

theorem events_namedByText (h : (Json.obj fields).NamedByText) :
    ∀ e ∈ (fields.get key).members.map Event.ofNamed, e.NamedByText := by
  refine List.forall_mem_map.2 fun m hm => ?_
  obtain ⟨hname, hfields⟩ := Json.members_namedByText (Fields.get_namedByText h key) hm
  exact ⟨hname, properties_namedByText hfields⟩

end Members

namespace TypeRecord

variable {record : TypeRecord}

theorem ofFields_namedByText {doc : Fields} {fallback : String} (h : (Json.obj doc).NamedByText)
    (hrecord : ofFields doc fallback = .ok record) : record.NamedByText := by
  rw [ofFields] at hrecord
  cases hown : OwnExclusions.ofJson (doc.get "excludes") with
  | error fault => simp [hown, bind, Except.bind] at hrecord
  | ok own =>
      simp only [hown, bind, Except.bind, pure, Except.pure, Except.ok.injEq] at hrecord
      subst hrecord
      exact ⟨properties_namedByText h, methods_namedByText h, events_namedByText h⟩

theorem NamedByText.without (h : record.NamedByText) (excluded : Exclusions) :
    (record.without excluded).NamedByText where
  properties p hp := h.properties p (List.mem_of_mem_filter hp)
  methods m hm := h.methods m (List.mem_of_mem_filter hm)
  events := h.events

end TypeRecord

end ApiTypings
