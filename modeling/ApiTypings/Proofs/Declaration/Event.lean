import ApiTypings.Declaration.EventMap
import ApiTypings.Proofs.Api.Named
import ApiTypings.Proofs.Declaration.Completion
import ApiTypings.Proofs.Declaration.Key
import ApiTypings.Proofs.Namespace.Mention

/-!
Event maps and payload interfaces.

What is declared for the events of a type is told event by event: the block of its payload
interface, and its entry in the map. The keys of the map are as different as the names of the
events. The names of the payload interfaces are not, since they have one character in place of all
that no identifier contains: two events whose names differ in nothing else get one interface, and it
is declared twice.
-/

namespace ApiTypings

namespace Declaration

open Report

/-! ### The events that survive -/

/-- Whether two events have the same name. -/
def sameName (e other : Event) : Bool := e.name.display == other.name.display

/-- The events that a type does not suppress, in order, and the first only of each name. -/
def survivorsOf (record : TypeRecord) : List Event :=
  (record.events.filter fun e => !record.excludes.events.contains e.name.display).eraseDupsBy
    sameName

theorem eventsBeyond_eq (seen : List String) {events : List Event}
    (h : ∀ e ∈ events, e.name.IsText) :
    Exclusion.eventsBeyond (seen.map .text) events =
      .ok ((events.filter fun e => !seen.contains e.name.display).eraseDupsBy sameName) := by
  induction events generalizing seen with
  | nil => rfl
  | cons e rest ih =>
    obtain ⟨⟨name, hname⟩, hrest⟩ := List.forall_mem_cons.1 h
    have hkey : e.name.comparable = .ok (.text name) := by rw [hname, Json.comparable_str]
    have hdisplay : e.name.display = name := by rw [hname, Json.display_str]
    have hcontains : (seen.map NameKey.text).contains (.text name) = seen.contains name := by
      simp
    rw [Exclusion.eventsBeyond, hkey, List.filter_cons, hdisplay]
    simp only [bind, Except.bind, hcontains]
    cases hseen : seen.contains name with
    | true => exact ih seen hrest
    | false =>
      -- The name has been seen from here on, so its later events are left out.
      have hlater := ih (name :: seen) hrest
      rw [List.map_cons] at hlater
      simp only [hlater, Bool.not_false, if_true, if_false, pure, Except.pure,
        Bool.false_eq_true]
      rw [List.eraseDupsBy_cons, List.filter_filter]
      congr 4
      funext other
      simp [sameName, hdisplay]

theorem survivingEvents_eq {record : TypeRecord} (h : ∀ e ∈ record.events, e.name.IsText) :
    Exclusion.survivingEvents record = .ok (survivorsOf record) :=
  eventsBeyond_eq _ h

theorem survivorsOf_subset (record : TypeRecord) : survivorsOf record ⊆ record.events :=
  List.Subset.trans (eraseDupsBy_subset _ _) List.filter_sublist.subset

/-- No two of the keys in the map of the surviving events are the same. -/
theorem nodup_quotedKeys (record : TypeRecord) :
    ((survivorsOf record).map fun e => quotedKeyText e.name.display).Nodup := by
  refine List.pairwise_map.2 ((pairwise_eraseDupsBy _ _).imp fun {e other} hdifferent hkey => ?_)
  have hname := quotedKeyText_injective hkey
  simp [sameName, hname] at hdifferent

/-! ### What is declared for an event -/

section Lines

variable (owner pad baseType : String)

/-- Whether an event has properties, and so an interface of its own. -/
def hasPayload (e : Event) : Bool := !e.properties.isEmpty

def payloadHeader (event : String) : String :=
  pad ++ "interface " ++ payloadName owner event ++ " extends " ++ baseType ++ " \x7b"

def payloadProperty (p : Property) : String :=
  pad ++ "\t" ++ memberKeyText p.name.display ++ ": " ++ (TypeText.declared p.type).value ++ ";"

/-- The interface of an event: its header, and one line for each property of that event. -/
def payloadBlock (e : Event) : List String :=
  if hasPayload e then
    payloadHeader owner pad baseType e.name.display :: e.properties.map (payloadProperty pad) ++
      [pad ++ "\x7d"]
  else []

def entryType (e : Event) : String :=
  if hasPayload e then payloadName owner e.name.display else baseType

def mapEntry (e : Event) : String :=
  pad ++ "\t" ++ quotedKeyText e.name.display ++ ": " ++ entryType owner baseType e ++ ";"

def mapHeader : String :=
  pad ++ "interface " ++ (owner ++ "EventMap") ++ " extends " ++ proxyEventMap ++ " \x7b"

/-- What is declared for events: their interfaces, and a map with one entry for each of them. -/
def eventDeclarations (events : List Event) : List String :=
  events.flatMap (payloadBlock owner pad baseType) ++
    mapHeader owner pad :: events.map (mapEntry owner pad baseType) ++ [pad ++ "\x7d"]

end Lines

section Outcome

variable {owner pad baseType : String}

theorem payloadLine_eq_ok_iff (p : Property) (line : String) :
    (payloadLine pad p).outcome = .ok line ↔ p.name.IsText ∧ line = payloadProperty pad p := by
  have hline : (payloadLine pad p).outcome =
      (memberKey p.name).bind fun key =>
        .ok (pad ++ "\t" ++ key ++ ": " ++ (TypeText.declared p.type).value ++ ";") := by
    rw [payloadLine, outcome_bind, outcome_ofExcept]
    rfl
  rw [hline, payloadProperty]
  cases hname : p.name with
  | str name => simp [Json.IsText, memberKey, matchable, Except.map, Except.bind, eq_comm]
  | _ => simp [Json.IsText, memberKey, matchable, Except.map, Except.bind]

theorem mapEvent_eq_ok_iff {e : Event} (h : e.name.IsText) (mapped : MappedEvent) :
    (mapEvent owner pad baseType e).outcome = .ok mapped ↔
      (∀ p ∈ e.properties, p.name.IsText) ∧
        mapped = ⟨quotedKeyText e.name.display, entryType owner baseType e,
          payloadBlock owner pad baseType e⟩ := by
  obtain ⟨name, hname⟩ := h
  have hlines {lines : List String} : (Report.each (payloadLine pad) e.properties).outcome =
      .ok lines ↔ (∀ p ∈ e.properties, p.name.IsText) ∧
        lines = e.properties.map (payloadProperty pad) :=
    outcome_each_eq_ok_iff fun p _ line => payloadLine_eq_ok_iff p line
  unfold mapEvent
  rw [hname, payloadBlock, entryType, hasPayload, hname]
  by_cases hempty : e.properties.isEmpty
  · have hnone : e.properties = [] := List.isEmpty_iff.1 hempty
    have hmapped : (do let key ← Report.ofExcept (quotedKey (.str name)); pure ⟨key, baseType, []⟩ :
        Report MappedEvent).outcome = .ok ⟨quotedKeyText name, baseType, []⟩ := rfl
    rw [if_pos hempty, hmapped]
    simp [hnone, eq_comm]
  · rw [if_neg hempty]
    simp only [outcome_bind, outcome_ofExcept, payloadTypeName, matchable, quotedKey, Except.map,
      Except.bind, hempty]
    constructor
    · intro hmapped
      obtain ⟨lines, heach, hmapped⟩ := Success.bind_eq_ok.1 hmapped
      obtain ⟨htext, rfl⟩ := hlines.1 heach
      exact ⟨htext, (Except.ok.inj hmapped).symm⟩
    · rintro ⟨htext, rfl⟩
      rw [hlines.2 ⟨htext, rfl⟩]
      rfl

/-- The event types of a record: they are declared if the properties of the surviving events are
named by texts. -/
theorem eventTypes_eq_ok_iff {record : TypeRecord} (h : ∀ e ∈ record.events, e.name.IsText)
    (thisType : Option String) (declared : Option EventTypes) :
    (eventTypes owner record pad baseType thisType).outcome = .ok declared ↔
      (∀ e ∈ survivorsOf record, ∀ p ∈ e.properties, p.name.IsText) ∧
        declared = if survivorsOf record = [] then none
          else some ⟨⟨owner ++ "EventMap", thisType⟩,
            eventDeclarations owner pad baseType (survivorsOf record)⟩ := by
  have hsurvivor : ∀ e ∈ survivorsOf record, e.name.IsText :=
    fun e he => h e (survivorsOf_subset record he)
  have heach {mapped : List MappedEvent} :
      (Report.each (mapEvent owner pad baseType) (survivorsOf record)).outcome = .ok mapped ↔
        (∀ e ∈ survivorsOf record, ∀ p ∈ e.properties, p.name.IsText) ∧
          mapped = (survivorsOf record).map fun e => ⟨quotedKeyText e.name.display,
            entryType owner baseType e, payloadBlock owner pad baseType e⟩ :=
    outcome_each_eq_ok_iff fun e he mapped => mapEvent_eq_ok_iff (hsurvivor e he) mapped
  unfold eventTypes
  rw [outcome_bind, outcome_ofExcept, survivingEvents_eq h]
  simp only [Except.bind]
  cases hevents : survivorsOf record with
  | nil => simp [eq_comm]
  | cons first rest =>
    rw [← hevents]
    have hne : survivorsOf record ≠ [] := by simp [hevents]
    have hfull : ¬(survivorsOf record).isEmpty := by simp [hevents]
    rw [if_neg hfull, if_neg hne, outcome_bind]
    constructor
    · intro hdeclared
      obtain ⟨mapped, hmapped, hdeclared⟩ := Success.bind_eq_ok.1 hdeclared
      obtain ⟨htext, rfl⟩ := heach.1 hmapped
      refine ⟨htext, (Except.ok.inj hdeclared).symm.trans ?_⟩
      simp [eventMapLines, eventDeclarations, List.flatMap_map, mapHeader, mapEntry]
    · rintro ⟨htext, rfl⟩
      rw [heach.2 ⟨htext, rfl⟩]
      simp [eventMapLines, eventDeclarations, List.flatMap_map, mapHeader, mapEntry, Except.bind]

end Outcome

/-! ### Interfaces of payloads -/

section Payloads

variable {owner pad baseType : String} {events : List Event}

/-- The name of an event, with one character for all that no identifier contains. -/
def payloadChars (e : Event) : List Char := e.name.display.toList.map payloadNameChar

theorem payloadHeader_eq_iff (name other : String) :
    payloadHeader owner pad baseType name = payloadHeader owner pad baseType other ↔
      name.toList.map payloadNameChar = other.toList.map payloadNameChar := by
  simp [payloadHeader, payloadName, ← String.toList_inj]

/-- Lines differ if they differ right behind the same indentation. -/
theorem ne_of_head? {a b : String} (h : a.toList.head? ≠ b.toList.head?) : pad ++ a ≠ pad ++ b := by
  intro heq
  rw [String.append_right_inj] at heq
  exact h (congrArg (·.toList.head?) heq)

theorem payloadProperty_ne_header (p : Property) (name : String) :
    payloadProperty pad p ≠ payloadHeader owner pad baseType name := by
  simp only [payloadProperty, payloadHeader, String.append_assoc]
  exact ne_of_head? (by simp)

theorem mapEntry_ne_header (e : Event) (name : String) :
    mapEntry owner pad baseType e ≠ payloadHeader owner pad baseType name := by
  simp only [mapEntry, payloadHeader, String.append_assoc]
  exact ne_of_head? (by simp)

theorem closing_ne_header (name : String) :
    pad ++ "\x7d" ≠ payloadHeader owner pad baseType name := by
  simp only [payloadHeader, String.append_assoc]
  exact ne_of_head? (by simp)

/-- The name of a payload interface goes on differently from that of the map. -/
theorem mapHeader_ne_header (name : String) :
    mapHeader owner pad ≠ payloadHeader owner pad baseType name := by
  have hlines (a b : String) (h : a.toList.head? ≠ b.toList.head?) :
      pad ++ "interface " ++ owner ++ a ≠ pad ++ "interface " ++ owner ++ b := ne_of_head? h
  simp only [mapHeader, payloadHeader, payloadName, String.append_assoc] at hlines ⊢
  exact hlines _ _ (by simp)

/-- The header of an interface stands in the block of each event that has that interface. -/
theorem count_payloadBlock (name : String) (e : Event) :
    (payloadBlock owner pad baseType e).count (payloadHeader owner pad baseType name) =
      if hasPayload e ∧ payloadChars e = name.toList.map payloadNameChar then 1 else 0 := by
  have hproperties : (e.properties.map (payloadProperty pad)).count
      (payloadHeader owner pad baseType name) = 0 := by
    rw [List.count_eq_zero, List.mem_map]
    rintro ⟨p, -, hp⟩
    exact payloadProperty_ne_header p name hp
  rw [payloadBlock, payloadChars]
  by_cases hpayload : hasPayload e
  · simp [hpayload, List.count_cons, hproperties, payloadHeader_eq_iff, closing_ne_header]
  · simp [hpayload]

theorem count_payloadBlocks (name : String) :
    (events.flatMap (payloadBlock owner pad baseType)).count
        (payloadHeader owner pad baseType name) =
      ((events.filter hasPayload).map payloadChars).count (name.toList.map payloadNameChar) := by
  induction events with
  | nil => rfl
  | cons e rest ih =>
    rw [List.flatMap_cons, List.count_append, count_payloadBlock, ih, List.filter_cons]
    by_cases hpayload : hasPayload e
    · simp [hpayload, List.count_cons, Nat.add_comm]
    · simp [hpayload]

theorem count_eventDeclarations (name : String) :
    (eventDeclarations owner pad baseType events).count (payloadHeader owner pad baseType name) =
      ((events.filter hasPayload).map payloadChars).count (name.toList.map payloadNameChar) := by
  have hentries : (events.map (mapEntry owner pad baseType)).count
      (payloadHeader owner pad baseType name) = 0 := by
    rw [List.count_eq_zero, List.mem_map]
    rintro ⟨e, -, he⟩
    exact mapEntry_ne_header e name he
  simp [eventDeclarations, count_payloadBlocks, hentries, mapHeader_ne_header, closing_ne_header]

/-- Each interface is declared once if and only if no two events share one. -/
theorem payloads_declared_once_iff :
    (∀ e ∈ events, hasPayload e → (eventDeclarations owner pad baseType events).count
        (payloadHeader owner pad baseType e.name.display) = 1) ↔
      ((events.filter hasPayload).map payloadChars).Nodup := by
  rw [List.nodup_iff_count_eq_one]
  simp only [count_eventDeclarations, List.forall_mem_map, List.mem_filter, and_imp]
  rfl

end Payloads

/-! ### Event maps -/

/-- What is declared for the events of a record. -/
structure MapsEvents (owner pad baseType : String) (record : TypeRecord) (types : EventTypes) :
    Prop where
  binding : types.binding.mapName = owner ++ "EventMap"
  declarations : types.declarations = eventDeclarations owner pad baseType (survivorsOf record)
  keys : ((survivorsOf record).map fun e => quotedKeyText e.name.display).Nodup

/-- The event types of a record are declared if the properties of its surviving events are named by
texts. Then there is a map with one entry for each surviving event, under keys that differ, and the
interface that the entry of an event with properties leads to lists the properties of that event.
These interfaces are declared once each if and only if the names of the events still differ with
one character for all that no identifier contains. -/
theorem eventTypes_sound_iff (owner pad baseType : String) (thisType : Option String)
    (record : TypeRecord) (h : ∀ e ∈ record.events, e.name.IsText) :
    ((∃ declared, (eventTypes owner record pad baseType thisType).outcome = .ok declared) ↔
        ∀ e ∈ survivorsOf record, ∀ p ∈ e.properties, p.name.IsText) ∧
      ((eventTypes owner record pad baseType thisType).outcome = .ok none →
        survivorsOf record = []) ∧
      ∀ types, (eventTypes owner record pad baseType thisType).outcome = .ok (some types) →
        MapsEvents owner pad baseType record types ∧
          ((∀ e ∈ survivorsOf record, hasPayload e →
              types.declarations.count (payloadHeader owner pad baseType e.name.display) = 1) ↔
            (((survivorsOf record).filter hasPayload).map payloadChars).Nodup) := by
  simp only [eventTypes_eq_ok_iff h]
  refine ⟨?_, ?_, ?_⟩
  · exact ⟨fun ⟨_, htext, _⟩ => htext, fun htext => ⟨_, htext, rfl⟩⟩
  · rintro ⟨-, hnone⟩
    by_contra hne
    simp [if_neg hne] at hnone
  · rintro types ⟨-, hsome⟩
    by_cases hne : survivorsOf record = []
    · simp [if_pos hne] at hsome
    · rw [if_neg hne] at hsome
      obtain rfl := Option.some.inj hsome
      exact ⟨⟨rfl, rfl, nodup_quotedKeys record⟩, payloads_declared_once_iff⟩

/-- A type with an event that it suppresses, one that it lists twice, and one without properties. -/
def clickable : TypeRecord :=
  let position : Property := { (default : Property) with name := .str "x-y", type := .str "Number" }
  { (default : TypeRecord) with
    events := [⟨.str "gone", "", []⟩, ⟨.str "click:in", "", [position]⟩, ⟨.str "it's", "", []⟩,
      ⟨.str "click:in", "", []⟩]
    excludes := ⟨[], [], ["gone"]⟩ }

theorem eventTypes_sound_iff_clickable :
    (∀ e ∈ clickable.events, e.name.IsText) ∧
      ∃ types, (eventTypes "W" clickable "" "E" none).outcome = .ok (some types) ∧
        MapsEvents "W" "" "E" clickable types ∧
        (∀ e ∈ survivorsOf clickable, hasPayload e →
          types.declarations.count (payloadHeader "W" "" "E" e.name.display) = 1) ∧
        types.declarations = ["interface W_click_in_Event extends E \x7b",
          "\t'x-y': number;", "\x7d", "interface WEventMap extends ProxyEventMap \x7b",
          "\t'click:in': W_click_in_Event;", "\t'it\\'s': E;", "\x7d"] := by
  have hnames : ∀ e ∈ clickable.events, e.name.IsText := by
    simp [clickable, Json.IsText]
  have hsurvivors : survivorsOf clickable = [clickable.events[1]!, clickable.events[2]!] := rfl
  have hproperties : ∀ e ∈ survivorsOf clickable, ∀ p ∈ e.properties, p.name.IsText := by
    rw [hsurvivors]
    simp [clickable, Json.IsText]
  obtain ⟨hdeclared, hnone, hsome⟩ := eventTypes_sound_iff "W" "" "E" none clickable hnames
  obtain ⟨declared, houtcome⟩ := hdeclared.2 hproperties
  cases declared with
  | none => exact absurd (hnone houtcome) (by simp [hsurvivors])
  | some types =>
    obtain ⟨hmaps, honce⟩ := hsome types houtcome
    refine ⟨hnames, types, houtcome, hmaps, honce.2 (by decide +kernel), ?_⟩
    rw [hmaps.declarations]
    decide +kernel

/-- A type with two events whose names differ in a character that no identifier contains. -/
def lookAlike : TypeRecord :=
  let number : Property := { (default : Property) with name := .str "x", type := .str "Number" }
  let string : Property := { (default : Property) with name := .str "y", type := .str "String" }
  { (default : TypeRecord) with
    events := [⟨.str "a:b", "", [number]⟩, ⟨.str "a_b", "", [string]⟩] }

theorem payload_declared_twice_lookAlike :
    (eventTypes "W" lookAlike "" "E" none).outcome.map (Option.map (·.declarations)) =
      .ok (some ["interface W_a_b_Event extends E \x7b", "\tx: number;", "\x7d",
        "interface W_a_b_Event extends E \x7b", "\ty: string;", "\x7d",
        "interface WEventMap extends ProxyEventMap \x7b", "\t'a:b': W_a_b_Event;",
        "\t'a_b': W_a_b_Event;", "\x7d"]) := by
  decide +kernel

end Declaration

end ApiTypings
