import ApiTypings.Declaration.Block
import ApiTypings.Proofs.Api.Named
import ApiTypings.Proofs.Success
import Mathlib.Data.List.Forall2

/-!
Declarations that are completed.

Declaring asks for texts where names stand, and for nodes that are resolved. Given both, nothing
ends it: each part of a declaration is completed because its own parts are.
-/

namespace ApiTypings

namespace Report

variable {α β : Type}

/-- No fault ends the computation. -/
def Completes (x : Report α) : Prop := ∃ a, x.outcome = .ok a

theorem completes_pure (a : α) : (pure a : Report α).Completes := ⟨a, rfl⟩

theorem completes_ofLogged (x : Logged α) : (ofLogged x).Completes := ⟨x.value, rfl⟩

theorem completes_tell (level : Level) (topic : Topic) (message : String) :
    (tell level topic message).Completes := ⟨(), rfl⟩

theorem completes_ofExcept {x : Except Fault α} (h : ∃ a, x = .ok a) :
    (ofExcept x).Completes := h

theorem Completes.bind {x : Report α} {f : α → Report β} (hx : x.Completes)
    (hf : ∀ a, x.outcome = .ok a → (f a).Completes) : (x >>= f).Completes := by
  obtain ⟨a, ha⟩ := hx
  obtain ⟨b, hb⟩ := hf a ha
  exact ⟨b, by rw [outcome_bind, ha, Except.bind, hb]⟩

theorem completes_each {f : α → Report β} {xs : List α} (h : ∀ a ∈ xs, (f a).Completes) :
    (each f xs).Completes := by
  induction xs with
  | nil => exact completes_pure []
  | cons a rest ih =>
      obtain ⟨hhead, hrest⟩ := List.forall_mem_cons.1 h
      exact hhead.bind fun _ _ => (ih hrest).bind fun _ _ => completes_pure _

/-- What two computations in sequence give. -/
theorem outcome_bind_eq_ok {x : Report α} {f : α → Report β} {b : β} :
    (x >>= f).outcome = .ok b ↔ ∃ a, x.outcome = .ok a ∧ (f a).outcome = .ok b := by
  rw [outcome_bind]
  exact Success.bind_eq_ok

/-- What several computations give is what each of them gives, one after another. -/
theorem outcome_each_eq_ok {f : α → Report β} {as : List α} {bs : List β} :
    (each f as).outcome = .ok bs ↔ List.Forall₂ (fun a b => (f a).outcome = .ok b) as bs := by
  induction as generalizing bs with
  | nil => simp [each, eq_comm]
  | cons a rest ih =>
    rw [each, outcome_bind_eq_ok, List.forall₂_cons_left_iff]
    constructor
    · rintro ⟨b, hb, hrest⟩
      obtain ⟨others, hothers, hwhole⟩ := outcome_bind_eq_ok.1 hrest
      exact ⟨b, others, hb, ih.1 hothers, (Except.ok.inj hwhole).symm⟩
    · rintro ⟨b, others, hb, hothers, rfl⟩
      exact ⟨b, hb, outcome_bind_eq_ok.2 ⟨others, ih.2 hothers, rfl⟩⟩

/-- If it is known what each computation gives, then also what all of them give. -/
theorem outcome_each_eq_ok_iff {f : α → Report β} {g : α → β} {P : α → Prop} {as : List α}
    (h : ∀ a ∈ as, ∀ b, (f a).outcome = .ok b ↔ P a ∧ b = g a) {bs : List β} :
    (each f as).outcome = .ok bs ↔ (∀ a ∈ as, P a) ∧ bs = as.map g := by
  rw [outcome_each_eq_ok]
  induction as generalizing bs with
  | nil => simp
  | cons a rest ih =>
    obtain ⟨ha, hrest⟩ := List.forall_mem_cons.1 h
    rw [List.forall₂_cons_left_iff, List.forall_mem_cons, List.map_cons]
    simp only [ha, ih hrest]
    constructor
    · rintro ⟨b, others, ⟨hP, rfl⟩, ⟨hall, rfl⟩, rfl⟩
      exact ⟨⟨hP, hall⟩, rfl⟩
    · rintro ⟨⟨hP, hall⟩, rfl⟩
      exact ⟨_, _, ⟨hP, rfl⟩, ⟨hall, rfl⟩, rfl⟩

end Report

namespace Declaration

open Report

/-! ### Names -/

variable {name : Json}

/-- A name that is a text ends nothing that succeeds for every text. -/
theorem completes_ofText {α : Type} (h : name.IsText) (f : Json → Except Fault α)
    (hf : ∀ s, ∃ a, f (.str s) = .ok a) : (Report.ofExcept (f name)).Completes := by
  obtain ⟨s, rfl⟩ := h
  exact completes_ofExcept (hf s)

theorem narrowedOverloads_str (events : Option EventBinding) (s : String) :
    ∃ overloads, narrowedOverloads (.str s) events = .ok overloads := by
  cases events with
  | none => exact ⟨_, rfl⟩
  | some binding => exact ⟨_, rfl⟩

/-- A parameter is renamed to a text as well. -/
theorem parameterName_of_isText (h : name.IsText) :
    ∃ renamed, parameterName name = .ok renamed ∧ renamed.IsText := by
  obtain ⟨s, rfl⟩ := h
  refine ⟨if isReserved s then .str (s ++ "_") else .str s, rfl, ?_⟩
  split
  · exact ⟨_, rfl⟩
  · exact ⟨_, rfl⟩

theorem comparableAll_of_isText {names : List Json} (h : ∀ name ∈ names, name.IsText) :
    ∃ keys, Json.comparableAll names = .ok keys := by
  induction names with
  | nil => exact ⟨[], rfl⟩
  | cons name rest ih =>
      obtain ⟨⟨s, rfl⟩, hrest⟩ := List.forall_mem_cons.1 h
      obtain ⟨keys, hkeys⟩ := ih hrest
      exact ⟨.text s :: keys, by rw [Json.comparableAll, hkeys]; rfl⟩

theorem listedNames_of_isText {names : List Json} (h : ∀ name ∈ names, name.IsText) :
    ∃ text, listedNames names = .ok text := by
  have hmatched : ∃ texts, names.mapM matchable = .ok texts := by
    induction names with
    | nil => exact ⟨[], rfl⟩
    | cons name rest ih =>
        obtain ⟨⟨s, rfl⟩, hrest⟩ := List.forall_mem_cons.1 h
        obtain ⟨texts, htexts⟩ := ih hrest
        exact ⟨s :: texts, by rw [List.mapM_cons, htexts]; rfl⟩
  obtain ⟨texts, htexts⟩ := hmatched
  exact ⟨_, by rw [listedNames, htexts]; rfl⟩

theorem eventsBeyond_of_isText (seen : List NameKey) {events : List Event}
    (h : ∀ e ∈ events, e.name.IsText) :
    ∃ kept, Exclusion.eventsBeyond seen events = .ok kept ∧ kept ⊆ events := by
  induction events generalizing seen with
  | nil => exact ⟨[], rfl, List.Subset.refl _⟩
  | cons e rest ih =>
      obtain ⟨⟨s, hs⟩, hrest⟩ := List.forall_mem_cons.1 h
      have hkey : e.name.comparable = .ok (.text s) := by rw [hs, Json.comparable_str]
      by_cases hseen : NameKey.text s ∈ seen
      · -- An event of a name that was seen is left out, and nothing is added to what was seen.
        obtain ⟨kept, hkept, hsub⟩ := ih seen hrest
        refine ⟨kept, ?_, List.subset_cons_of_subset e hsub⟩
        simp [Exclusion.eventsBeyond, hkey, hseen, hkept, bind, Except.bind]
      · obtain ⟨kept, hkept, hsub⟩ := ih (.text s :: seen) hrest
        refine ⟨e :: kept, ?_, List.cons_subset_cons e hsub⟩
        simp [Exclusion.eventsBeyond, hkey, hseen, hkept, bind, Except.bind, pure, Except.pure]

/-! ### Members -/

section Members

variable {pad keyword : String}

theorem completes_propertyLine {p : Property} (h : p.name.IsText) (methods : List NameKey)
    (optional : Bool) : (propertyLine pad p methods optional).Completes := by
  unfold propertyLine
  split
  · exact (completes_ofText h (·.isAmong methods) fun _ => ⟨_, rfl⟩).bind fun _ _ =>
      completes_pure _
  · exact (completes_ofText h memberKey fun _ => ⟨_, rfl⟩).bind fun _ _ =>
      (completes_ofLogged _).bind fun _ _ => completes_pure _

theorem declareParameter_named {p : Parameter} (h : p.name.IsText) (alone : Bool)
    (later : List Parameter) :
    ∃ declared, (declareParameter alone p later).outcome = .ok declared ∧
      declared.name.IsText := by
  obtain ⟨renamed, hrenamed, htext⟩ := parameterName_of_isText h
  let type := (TypeText.declared p.type).value
  let style := parameterStyle alone p type later
  have hout : (declareParameter alone p later).outcome =
      .ok ⟨renamed, type, style.1, style.2⟩ := by
    rw [declareParameter, outcome_bind, outcome_ofExcept, hrenamed]
    rfl
  exact ⟨_, hout, htext⟩

theorem declareFrom_named {alone : Bool} {parameters : List Parameter}
    (h : ∀ p ∈ parameters, p.name.IsText) :
    ∃ declared, (declareFrom alone parameters).outcome = .ok declared ∧
      ∀ d ∈ declared, d.name.IsText := by
  induction parameters with
  | nil => exact ⟨[], rfl, by simp⟩
  | cons p later ih =>
      obtain ⟨hp, hlater⟩ := List.forall_mem_cons.1 h
      obtain ⟨head, hhead, hname⟩ := declareParameter_named hp alone later
      obtain ⟨others, hothers, hnames⟩ := ih hlater
      refine ⟨head :: others, ?_, List.forall_mem_cons.2 ⟨hname, hnames⟩⟩
      rw [declareFrom, outcome_bind, hhead, Except.bind, outcome_bind, hothers]
      rfl

theorem completes_reportCleared {m : Method} {cleared : List Json}
    (h : ∀ name ∈ cleared, name.IsText) : (reportCleared m cleared).Completes := by
  unfold reportCleared
  split
  · exact completes_pure _
  · exact (completes_ofExcept (listedNames_of_isText h)).bind fun _ _ =>
      (completes_tell _ _ _).bind fun _ _ => completes_pure _

theorem completes_plainMethodLine {m : Method} (h : m.NamedByText) :
    (plainMethodLine pad m keyword).Completes := by
  obtain ⟨declared, hdeclared, hnames⟩ := declareFrom_named h.parameters
  refine Completes.bind ⟨declared, hdeclared⟩ fun parameters hparameters => ?_
  obtain rfl := Except.ok.inj (hdeclared.symm.trans hparameters)
  refine (completes_ofLogged _).bind fun returns _ => ?_
  refine (completes_reportCleared ?_).bind fun _ _ => completes_pure _
  intro name hname
  obtain ⟨d, hd, rfl⟩ := List.mem_map.1 hname
  exact hnames d (List.mem_of_mem_filter hd)

theorem completes_methodLine {m : Method} (h : m.NamedByText) (properties : List NameKey)
    (events : Option EventBinding) : (methodLine pad m properties events keyword).Completes := by
  unfold methodLine
  split
  · exact (completes_ofText h.name (·.isAmong properties) fun _ => ⟨_, rfl⟩).bind fun _ _ =>
      completes_pure _
  · refine Completes.bind ?_ fun _ _ => ?_
    · exact completes_ofText h.name (narrowedOverloads · events) (narrowedOverloads_str events)
    split
    · exact completes_plainMethodLine h
    · exact completes_pure _

theorem completes_classProperty {record : TypeRecord} {p : Property} (h : p.name.IsText)
    (methods : List NameKey) (optional : Bool) :
    (classProperty pad record p methods optional).Completes := by
  unfold classProperty
  split
  · exact (completes_propertyLine h methods optional).bind fun _ _ => completes_pure _
  · exact completes_propertyLine h methods optional

theorem completes_namespaceProperty {record : TypeRecord} {p : Property} (h : p.name.IsText)
    (methods : List NameKey) : (namespaceProperty pad record p methods).Completes := by
  unfold namespaceProperty
  split
  · exact (completes_ofText h (·.isAmong methods) fun _ => ⟨_, rfl⟩).bind fun _ _ =>
      completes_pure _
  · refine (completes_ofLogged _).bind fun _ _ => ?_
    dsimp only
    split
    · exact completes_pure _
    · exact (completes_ofText h isIdentifier fun _ => ⟨_, rfl⟩).bind fun _ _ =>
        completes_pure _

theorem completes_namespaceMethod {m : Method} (h : m.NamedByText) (properties : List NameKey)
    (binding : Option EventBinding) : (namespaceMethod pad m properties binding).Completes := by
  have hplain : (methodLine "" m properties none "function ").Completes :=
    completes_methodLine h properties none
  have hdecl := hplain.bind fun decl _ => completes_pure (skippedLine pad invalidReason decl)
  -- A name that cannot be declared leads to the same line, without a binding and commented out.
  have hline (valid : Bool) : (if valid then methodLine pad m properties binding "function "
      else methodLine "" m properties none "function " >>= fun decl =>
        pure (skippedLine pad invalidReason decl)).Completes := by
    split
    · exact completes_methodLine h properties binding
    · exact hdecl
  unfold namespaceMethod
  dsimp only
  split
  · exact (completes_pure true).bind fun valid _ => hline valid
  · exact (completes_ofText h.name isIdentifier fun _ => ⟨_, rfl⟩).bind fun valid _ =>
      hline valid

theorem completes_globalProperty (p : Property) : (globalProperty p).Completes := by
  unfold globalProperty
  split
  · exact completes_pure _
  · exact (completes_ofLogged _).bind fun _ _ => completes_pure _

theorem completes_globalMethod {m : Method} (h : m.NamedByText) : (globalMethod m).Completes := by
  obtain ⟨declared, hdeclared, -⟩ := declareFrom_named h.parameters
  unfold globalMethod
  split
  · exact completes_pure _
  · exact Completes.bind ⟨declared, hdeclared⟩ fun _ _ =>
      (completes_ofLogged _).bind fun _ _ => completes_pure _

end Members

/-! ### Events -/

theorem completes_payloadLine {p : Property} (h : p.name.IsText) (pad : String) :
    (payloadLine pad p).Completes :=
  (completes_ofText h memberKey fun _ => ⟨_, rfl⟩).bind fun _ _ =>
    (completes_ofLogged _).bind fun _ _ => completes_pure _

theorem completes_mapEvent {owner pad baseType : String} {e : Event} (h : e.NamedByText) :
    (mapEvent owner pad baseType e).Completes := by
  have hkey := completes_ofText h.name quotedKey fun _ => ⟨_, rfl⟩
  unfold mapEvent
  split
  · exact hkey.bind fun _ _ => completes_pure _
  · refine (completes_ofText h.name (payloadTypeName owner) fun _ => ⟨_, rfl⟩).bind fun _ _ => ?_
    have hlines := completes_each fun p hp => completes_payloadLine (h.properties p hp) pad
    refine hlines.bind fun _ _ => ?_
    exact hkey.bind fun _ _ => completes_pure _

theorem completes_eventTypes {owner pad baseType : String} {record : TypeRecord}
    {thisType : Option String} (h : record.NamedByText) :
    (eventTypes owner record pad baseType thisType).Completes := by
  obtain ⟨kept, hkept, hsub⟩ := eventsBeyond_of_isText (record.excludes.events.map .text)
    fun e he => (h.events e he).name
  refine (completes_ofExcept ⟨kept, hkept⟩).bind fun events hevents => ?_
  obtain rfl := Except.ok.inj (hkept.symm.trans hevents)
  split
  · exact completes_pure _
  · exact (completes_each fun e he => completes_mapEvent (h.events e (hsub he))).bind fun _ _ =>
      completes_pure _

/-! ### Nodes and branches -/

/-- A node that is resolved, with a record in which everything is named by text. -/
def Ready (n : Node) : Prop := ∃ r, n.resolution = some r ∧ r.record.NamedByText

variable {ctx : Context} {n : Node} {r : Resolution}

theorem Context.completes_eventTypes {record : TypeRecord} {pad : String}
    {thisType : Option String} (h : record.NamedByText) :
    (ctx.eventTypes n record pad thisType).Completes := by
  unfold Context.eventTypes
  split
  · exact Declaration.completes_eventTypes h
  · exact completes_pure _

theorem comparable_methods (h : r.record.NamedByText) :
    ∃ keys, Json.comparableAll (r.record.methods.map (·.name)) = .ok keys :=
  comparableAll_of_isText (List.forall_mem_map.2 fun m hm => (h.methods m hm).name)

theorem comparable_properties (h : r.record.NamedByText) :
    ∃ keys, Json.comparableAll (r.record.properties.map (·.name)) = .ok keys :=
  comparableAll_of_isText (List.forall_mem_map.2 h.properties)

theorem completes_classBody (h : r.record.NamedByText) (inner : String) (kind : DeclarationKind)
    (methods properties : List NameKey) (binding : Option EventBinding) :
    (classBody inner kind r methods properties binding).Completes :=
  (completes_each fun p hp => completes_classProperty (h.properties p hp) _ _).bind fun _ _ =>
    (completes_each fun m hm => completes_methodLine (h.methods m hm) _ _).bind fun _ _ =>
      completes_pure _

theorem completes_classText (h : r.record.NamedByText) : (classText ctx n r).Completes := by
  unfold classText
  refine (completes_ofExcept (comparable_methods h)).bind fun _ _ => ?_
  refine (completes_ofExcept (comparable_properties h)).bind fun _ _ => ?_
  refine (Context.completes_eventTypes h).bind fun _ _ => ?_
  exact (completes_classBody h _ _ _ _ _).bind fun _ _ => completes_pure _

theorem completes_namespaceMembers (h : r.record.NamedByText) (pad : String) :
    (namespaceMembers ctx n pad r).Completes := by
  unfold namespaceMembers
  refine (Context.completes_eventTypes h).bind fun _ _ => Completes.bind ?_ fun _ _ =>
    Completes.bind ?_ fun _ _ => completes_pure _
  · unfold namespaceProperties
    split
    · exact completes_pure _
    · refine (completes_ofExcept (comparable_methods h)).bind fun _ _ => ?_
      exact (completes_each fun p hp => completes_namespaceProperty (h.properties p hp) _).bind
        fun _ _ => completes_pure _
  · unfold namespaceMethods
    split
    · exact completes_pure _
    · refine (completes_ofExcept (comparable_properties h)).bind fun _ _ => ?_
      exact (completes_each fun m hm => completes_namespaceMethod (h.methods m hm) _ _).bind
        fun _ _ => completes_pure _

theorem completes_skippedNode : (skippedNode ctx n).Completes :=
  (completes_tell _ _ _).bind fun _ _ => completes_pure _

theorem resolved_of_resolution (h : n.resolution = some r) : ctx.resolved n = pure r := by
  rw [Context.resolved, h]

mutual

/-- Declaring a branch of ready nodes is completed. -/
theorem completes_branchText : ∀ b : Branch, (∀ n ∈ b.preorder, Ready n) →
    (branchText ctx b).Completes
  | .fork n bs => by
      intro h
      obtain ⟨⟨r, hr, hrecord⟩, hbelow⟩ := List.forall_mem_cons.1 h
      have hnested := completes_branchTexts bs hbelow
      rw [branchText, resolved_of_resolution hr, pure_bind]
      split
      · exact completes_skippedNode
      split
      · exact completes_pure _
      split
      · refine (completes_classText hrecord).bind fun _ _ => ?_
        split
        · exact completes_pure _
        · exact hnested.bind fun _ _ => completes_pure _
      · split
        · exact completes_classText hrecord
        · exact hnested.bind fun _ _ =>
            (completes_namespaceMembers hrecord _).bind fun _ _ => completes_pure _

theorem completes_branchTexts : ∀ bs : List Branch, (∀ n ∈ Branch.preorderAll bs, Ready n) →
    (branchTexts ctx bs).Completes
  | [] => fun _ => completes_pure _
  | b :: rest => by
      intro h
      obtain ⟨hhead, hrest⟩ := List.forall_mem_append.1 h
      exact (completes_branchText b hhead).bind fun _ _ =>
        (completes_branchTexts rest hrest).bind fun _ _ => completes_pure _

end

theorem completes_globalMembers {root : Node} (h : Ready root) :
    (globalMembers ctx root).Completes := by
  obtain ⟨r, hr, hrecord⟩ := h
  unfold globalMembers
  rw [resolved_of_resolution hr, pure_bind]
  refine (completes_each fun p _ => completes_globalProperty p).bind fun _ _ => ?_
  exact (completes_each fun m hm => completes_globalMethod (hrecord.methods m hm)).bind
    fun _ _ => completes_pure _

/-- So is declaring all that there is. -/
theorem completes_bodyText {root : Branch} (h : ∀ n ∈ root.preorder, Ready n) :
    (bodyText ctx root).Completes := by
  obtain ⟨n, bs⟩ := root
  obtain ⟨hroot, hbelow⟩ := List.forall_mem_cons.1 h
  exact (completes_globalMembers hroot).bind fun _ _ =>
    (completes_branchTexts bs hbelow).bind fun _ _ => completes_pure _

end Declaration

end ApiTypings
