import ApiTypings.Proofs.Declaration.Completion
import ApiTypings.Proofs.Success
import Mathlib.Data.List.Forall2

/-!
The members in a body.

A class, an interface or a namespace has a section for its properties and one for its methods. What
each line of a section is there for is told by an item: a name that is declared never, because it is
excluded or was removed, or a member; either can be commented out. The items of a body are known
from the resolution of its node alone. They are written in their order, one text for each, and there
is nothing else between the braces but what stands in front of the sections and the types that are
nested in a namespace.

Both kinds of members are treated alike, so the items are given for a kind and the other one.
-/

namespace ApiTypings.Declaration

open Report

/-! ### Members and items -/

inductive MemberKind where
  | property
  | method
  deriving DecidableEq, Repr

namespace MemberKind

def other : MemberKind → MemberKind
  | property => method
  | method => property

/-- The names of a kind that a type suppresses itself. -/
def own : MemberKind → OwnExclusions → List String
  | property => OwnExclusions.properties
  | method => OwnExclusions.methods

/-- The names of a kind that a resolved node excludes. -/
def excluded : MemberKind → Exclusions → List String
  | property => Exclusions.properties
  | method => Exclusions.methods

@[simp] theorem other_other (kind : MemberKind) : kind.other.other = kind := by
  cases kind <;> rfl

end MemberKind

/-- What decides how a member is declared, apart from its kind. -/
structure Member where
  name : Json
  removed : Bool

/-- The members of a kind that a record lists. -/
def membersOf (record : TypeRecord) : MemberKind → List Member
  | .property => record.properties.map fun p => ⟨p.name, (removal? p.deprecation).isSome⟩
  | .method => record.methods.map fun m => ⟨m.name, (removal? m.deprecation).isSome⟩

/-- What the names of the members of a kind are compared by. -/
def keysOf (record : TypeRecord) (kind : MemberKind) : List NameKey :=
  (membersOf record kind).filterMap (·.name.nameKey?)

/-- What a text in a body is there for. -/
inductive BodyItem where
  /-- A heading, or the blank line behind excluded names. -/
  | layout
  /-- A name that is declared never. -/
  | never (name : Json) (commented : Bool)
  /-- A member that is declared as what it is. -/
  | member (name : Json) (commented : Bool)

/-- Whether a property of a name collides with another declaration; nothing but its name matters. -/
def collidesAs (record : TypeRecord) (name : Json) : Bool :=
  collides record { (default : Property) with name }

theorem collides_eq (record : TypeRecord) (p : Property) :
    collides record p = collidesAs record p.name := rfl

/-- Whether a name can be declared outside a class. -/
def hasIdentifier (name : Json) : Bool := (isIdentifier name).toOption.getD false

theorem hasIdentifier_eq {name : Json} {valid : Bool} (h : isIdentifier name = .ok valid) :
    hasIdentifier name = valid := by
  rw [hasIdentifier, h]
  rfl

/-- Where members are declared: in a class or an interface, or in a namespace. -/
inductive Scope where
  | type
  | block
  deriving DecidableEq, Repr

namespace Scope

/-- What introduces a name that is declared never. -/
def neverWord : Scope → String
  | type => ""
  | block => "const "

def functionWord : Scope → String
  | type => ""
  | block => "function "

/-- What stands above the members of a kind. -/
def headings : Scope → List BodyItem
  | type => [.layout]
  | block => []

/-- Whether the declaration of a member is commented out because it collides with another one, or
because its name cannot be declared. -/
def skips (record : TypeRecord) (name : Json) : Scope → MemberKind → Bool
  | type, .property => collidesAs record name
  | type, .method => false
  | block, .property => collidesAs record name || !hasIdentifier name
  | block, .method => !hasIdentifier name

end Scope

section Items

variable (scope : Scope) (r : Resolution) (kind : MemberKind)

/-- A removed member is declared never, and commented out if the other kind has its name. -/
def memberItem (m : Member) : BodyItem :=
  if m.removed then .never m.name (m.name.nameKey?.any (keysOf r.record kind.other).contains)
  else .member m.name (scope.skips r.record m.name kind)

def excludedItems (names : List String) : List BodyItem :=
  if names.isEmpty then []
  else (Text.sortDistinct names).map (fun name => .never (.str name) false) ++ [.layout]

/-- The items for the members of a kind: none at all if no member is left. -/
def sectionItems : List BodyItem :=
  if (membersOf r.record kind).isEmpty then []
  else scope.headings ++ excludedItems (kind.excluded r.excluded) ++
    (membersOf r.record kind).map (memberItem scope r kind)

def bodyItems : List BodyItem := sectionItems scope r .property ++ sectionItems scope r .method

end Items

/-! ### Writing items -/

/-- The text that an item is written as. What is commented out stands behind two slashes. -/
inductive Writes (scope : Scope) (pad : String) : BodyItem → String → Prop
  | heading (text : String) : Writes scope pad .layout (pad ++ "// " ++ text)
  | blank : Writes scope pad .layout ""
  | excluded (name : String) :
    Writes scope pad (.never (.str name) false) (pad ++ scope.neverWord ++ name ++ ": never;")
  | tombstone (name : Json) (d : Deprecation) (commented : Bool) :
    Writes scope pad (.never name commented)
      (Declaration.tombstone pad name.display d commented scope.neverWord)
  | property (p : Property) {key : String} (hkey : memberKey p.name = .ok key)
      (mark type : String) :
    Writes scope pad (.member p.name false)
      (pad ++ deprecatedMark p.deprecation ++ (if p.readOnly then "readonly " else "") ++ key ++
        mark ++ ": " ++ type ++ ";")
  | binding (p : Property) (type : String) :
    Writes scope pad (.member p.name false)
      (pad ++ (variableWord p ++ " " ++ p.name.display ++ ": " ++ type ++ ";"))
  | method (m : Method) (parameters returns note : String) :
    Writes scope pad (.member m.name false)
      (pad ++ deprecatedMark m.deprecation ++ scope.functionWord ++ m.name.display ++ "(" ++
        parameters ++ "): " ++ returns ++ ";" ++ note)
  | overloads (name : Json) {events : EventBinding} (hne : eventOverloads name events ≠ []) :
    Writes scope pad (.member name false)
      (Text.join "\n" ((eventOverloads name events).map fun o => pad ++ scope.functionWord ++ o))
  | skipped (name : Json) (reason declared : String) :
    Writes scope pad (.member name true) (skippedLine pad reason declared)

section Writing

variable {scope : Scope} {pad line : String} {r : Resolution} {names : List NameKey}

theorem any_of_isAmong {name : Json} {b : Bool} (h : name.isAmong names = .ok b) :
    b = name.nameKey?.any names.contains := by
  rw [Json.isAmong, Json.comparable] at h
  cases hkey : name.nameKey? with
  | none => simp [hkey, Except.map] at h
  | some key => simpa [hkey, Except.map, eq_comm] using h

theorem filterMap_of_comparableAll {names : List Json} {keys : List NameKey}
    (h : Json.comparableAll names = .ok keys) : keys = names.filterMap Json.nameKey? := by
  induction names generalizing keys with
  | nil => exact (Except.ok.inj h).symm
  | cons name rest ih =>
    obtain ⟨key, hkey, h⟩ := Success.bind_eq_ok.1 h
    obtain ⟨others, hothers, h⟩ := Success.bind_eq_ok.1 h
    have hname : name.nameKey? = some key := by
      rw [Json.comparable] at hkey
      split at hkey
      next found hfound => rw [hfound, Except.ok.inj hkey]
      · exact absurd hkey (by simp)
    rw [List.filterMap_cons, hname, ← ih hothers]
    exact (Except.ok.inj h).symm

theorem keysOf_methods {record : TypeRecord}
    (h : Json.comparableAll (record.methods.map (·.name)) = .ok names) :
    names = keysOf record .method := by
  rw [filterMap_of_comparableAll h, keysOf, membersOf, List.filterMap_map, List.filterMap_map]
  rfl

theorem keysOf_properties {record : TypeRecord}
    (h : Json.comparableAll (record.properties.map (·.name)) = .ok names) :
    names = keysOf record .property := by
  rw [filterMap_of_comparableAll h, keysOf, membersOf, List.filterMap_map, List.filterMap_map]
  rfl

/-! ### One member -/

theorem writes_tombstone {name : Json} {d : Deprecation}
    (h : (do let commented ← Report.ofExcept (name.isAmong names)
             pure (tombstone pad name.display d commented scope.neverWord) :
      Report String).outcome = .ok line) :
    Writes scope pad (.never name (name.nameKey?.any names.contains)) line := by
  obtain ⟨commented, hcommented, h⟩ := outcome_bind_eq_ok.1 h
  obtain rfl := any_of_isAmong hcommented
  obtain rfl := Except.ok.inj h
  exact .tombstone name d _

theorem writes_propertyLine {p : Property} {optional : Bool}
    (h : (propertyLine pad p names optional).outcome = .ok line) :
    Writes .type pad (if (removal? p.deprecation).isSome
      then .never p.name (p.name.nameKey?.any names.contains) else .member p.name false) line := by
  unfold propertyLine at h
  cases hremoval : removal? p.deprecation with
  | some d =>
    rw [hremoval] at h
    exact writes_tombstone h
  | none =>
    rw [hremoval] at h
    obtain ⟨key, hkey, h⟩ := outcome_bind_eq_ok.1 h
    obtain ⟨type, -, h⟩ := outcome_bind_eq_ok.1 h
    obtain rfl := Except.ok.inj h
    exact .property p hkey _ type

theorem writes_classProperty {p : Property} {optional : Bool}
    (h : (classProperty pad r.record p (keysOf r.record .method) optional).outcome = .ok line) :
    Writes .type pad (memberItem .type r .property ⟨p.name, (removal? p.deprecation).isSome⟩)
      line := by
  unfold classProperty at h
  split at h
  next hskip =>
    obtain ⟨declared, -, h⟩ := outcome_bind_eq_ok.1 h
    obtain rfl := Except.ok.inj h
    simp only [collides_eq, Bool.and_eq_true, Option.isNone_iff_eq_none] at hskip
    simpa [memberItem, hskip, Scope.skips] using Writes.skipped p.name _ _
  next hkept =>
    have hwrites := writes_propertyLine h
    cases hremoval : removal? p.deprecation with
    | some d => simpa [memberItem, hremoval, MemberKind.other] using hwrites
    | none =>
      have hstays : collidesAs r.record p.name = false := by
        simpa [collides_eq, hremoval] using hkept
      simpa [memberItem, hremoval, Scope.skips, hstays] using hwrites

theorem writes_namespaceProperty {p : Property}
    (h : (namespaceProperty pad r.record p (keysOf r.record .method)).outcome = .ok line) :
    Writes .block pad (memberItem .block r .property ⟨p.name, (removal? p.deprecation).isSome⟩)
      line := by
  unfold namespaceProperty at h
  cases hremoval : removal? p.deprecation with
  | some d =>
    rw [hremoval] at h
    exact writes_tombstone h
  | none =>
    rw [hremoval] at h
    obtain ⟨type, -, h⟩ := outcome_bind_eq_ok.1 h
    dsimp only at h
    split at h
    next hskip =>
      obtain rfl := Except.ok.inj h
      rw [collides_eq] at hskip
      simpa [memberItem, Scope.skips, hskip] using Writes.skipped p.name _ _
    next hkept =>
      obtain ⟨valid, hvalid, h⟩ := outcome_bind_eq_ok.1 h
      obtain rfl := Except.ok.inj h
      have hidentifier := hasIdentifier_eq hvalid
      have hstays : collidesAs r.record p.name = false := by simpa [collides_eq] using hkept
      cases valid with
      | true => simpa [memberItem, Scope.skips, hstays, hidentifier] using Writes.binding p type
      | false =>
        simpa [memberItem, Scope.skips, hstays, hidentifier] using Writes.skipped p.name _ _

/-- Overloads are those of an event method, against the events that it is narrowed to. -/
theorem eq_eventOverloads {name : Json} {events : Option EventBinding} {overloads : List String}
    (h : narrowedOverloads name events = .ok overloads) (hne : overloads ≠ []) :
    ∃ binding, overloads = eventOverloads name binding := by
  cases events with
  | none => exact absurd (Except.ok.inj h).symm hne
  | some binding =>
    obtain ⟨isEventMethod, -, h⟩ := Success.map_eq_ok.1 h
    cases isEventMethod with
    | true => exact ⟨binding, h.symm⟩
    | false => exact absurd h.symm hne

theorem writes_plainMethodLine {scope : Scope} {m : Method}
    (h : (plainMethodLine pad m scope.functionWord).outcome = .ok line) :
    Writes scope pad (.member m.name false) line := by
  obtain ⟨parameters, -, h⟩ := outcome_bind_eq_ok.1 h
  obtain ⟨returns, -, h⟩ := outcome_bind_eq_ok.1 h
  obtain ⟨note, -, h⟩ := outcome_bind_eq_ok.1 h
  obtain rfl := Except.ok.inj h
  exact .method m _ returns note

theorem writes_methodLine (scope : Scope) {m : Method} {events : Option EventBinding}
    (h : (methodLine pad m names events scope.functionWord).outcome = .ok line) :
    Writes scope pad (if (removal? m.deprecation).isSome
      then .never m.name (m.name.nameKey?.any names.contains) else .member m.name false) line := by
  unfold methodLine at h
  cases hremoval : removal? m.deprecation with
  | some d =>
    rw [hremoval] at h
    have hword : (if scope.functionWord = "" then "" else "const ") = scope.neverWord := by
      cases scope <;> rfl
    rw [hword] at h
    exact writes_tombstone h
  | none =>
    rw [hremoval] at h
    obtain ⟨overloads, hoverloads, h⟩ := outcome_bind_eq_ok.1 h
    split at h
    · exact writes_plainMethodLine h
    next hsome =>
      have hne : overloads ≠ [] := fun hnil => hsome (List.isEmpty_iff.2 hnil)
      obtain ⟨binding, rfl⟩ := eq_eventOverloads hoverloads hne
      obtain rfl := Except.ok.inj h
      exact .overloads m.name hne

theorem writes_typeMethod {m : Method} {events : Option EventBinding}
    (h : (methodLine pad m (keysOf r.record .property) events "").outcome = .ok line) :
    Writes .type pad (memberItem .type r .method ⟨m.name, (removal? m.deprecation).isSome⟩)
      line := by
  have hwrites := writes_methodLine .type h
  simpa [memberItem, MemberKind.other, Scope.skips] using hwrites

theorem writes_namespaceMethod {m : Method} {events : Option EventBinding}
    (h : (namespaceMethod pad m (keysOf r.record .property) events).outcome = .ok line) :
    Writes .block pad (memberItem .block r .method ⟨m.name, (removal? m.deprecation).isSome⟩)
      line := by
  unfold namespaceMethod at h
  cases hremoval : removal? m.deprecation with
  | some d =>
    rw [hremoval] at h
    have hwrites := writes_methodLine .block h
    simpa [memberItem, hremoval, MemberKind.other] using hwrites
  | none =>
    rw [hremoval] at h
    obtain ⟨valid, hvalid, h⟩ := outcome_bind_eq_ok.1 h
    have hidentifier := hasIdentifier_eq hvalid
    cases valid with
    | true =>
      have hwrites := writes_methodLine .block h
      simpa [memberItem, hremoval, Scope.skips, hidentifier] using hwrites
    | false =>
      obtain ⟨declared, -, h⟩ := outcome_bind_eq_ok.1 h
      obtain rfl := Except.ok.inj h
      simpa [memberItem, Scope.skips, hidentifier] using Writes.skipped m.name _ _

/-! ### Sections -/

section Sections

variable {scope : Scope} {kind : MemberKind} {lines : List String}

/-- What is written, text for text. -/
abbrev WritesAll (scope : Scope) (pad : String) (items : List BodyItem) (lines : List String) :
    Prop :=
  List.Forall₂ (Writes scope pad) items lines

namespace Scope

/-- The text that a property is declared by, as an optional one or not. -/
def propertyText (pad : String) (record : TypeRecord) (p : Property) (optional : Bool) :
    Scope → Report String
  | type => classProperty pad record p (keysOf record .method) optional
  | block => namespaceProperty pad record p (keysOf record .method)

/-- The text that a method is declared by, narrowed to events or not. -/
def methodText (pad : String) (record : TypeRecord) (m : Method) (events : Option EventBinding) :
    Scope → Report String
  | type => methodLine pad m (keysOf record .property) events ""
  | block => namespaceMethod pad m (keysOf record .property) events

end Scope

/-- What can be read from each text of a section, whichever kind it is the section of. -/
structure Reading (scope : Scope) (pad : String) (r : Resolution)
    (W : MemberKind → BodyItem → String → Prop) : Prop where
  heading : ∀ kind text, W kind .layout (pad ++ "// " ++ text)
  blank : ∀ kind, W kind .layout ""
  excluded : ∀ kind name,
    W kind (.never (.str name) false) (pad ++ scope.neverWord ++ name ++ ": never;")
  property : ∀ (p : Property) optional line,
    (scope.propertyText pad r.record p optional).outcome = .ok line →
      W .property (memberItem scope r .property ⟨p.name, (removal? p.deprecation).isSome⟩) line
  method : ∀ (m : Method) events line,
    (scope.methodText pad r.record m events).outcome = .ok line →
      W .method (memberItem scope r .method ⟨m.name, (removal? m.deprecation).isSome⟩) line

theorem reading_writes (scope : Scope) (pad : String) (r : Resolution) :
    Reading scope pad r fun _ => Writes scope pad where
  heading _ text := .heading text
  blank _ := .blank
  excluded _ name := .excluded name
  property _ _ _ h := by
    cases scope with
    | type => exact writes_classProperty h
    | block => exact writes_namespaceProperty h
  method _ _ _ h := by
    cases scope with
    | type => exact writes_typeMethod h
    | block => exact writes_namespaceMethod h

section Reading

variable {W : MemberKind → BodyItem → String → Prop}

theorem Reading.exclusionLines (hW : Reading scope pad r W) (kind : MemberKind)
    (names : List String) :
    List.Forall₂ (W kind) (excludedItems names) (exclusionLines pad names scope.neverWord) := by
  unfold excludedItems Declaration.exclusionLines
  split
  · exact .nil
  · refine List.rel_append (List.forall₂_map_left_iff.2 (List.forall₂_map_right_iff.2 ?_))
      (.cons (hW.blank kind) .nil)
    exact List.forall₂_same.2 fun name _ => hW.excluded kind name

/-- A section can be read if its members can. -/
theorem Reading.section (hW : Reading scope pad r W) {headings : List String}
    (hheadings : List.Forall₂ (W kind) scope.headings headings)
    (h : List.Forall₂ (W kind) ((membersOf r.record kind).map (memberItem scope r kind)) lines) :
    List.Forall₂ (W kind) (sectionItems scope r kind)
      (if (membersOf r.record kind).isEmpty then [] else headings ++
        Declaration.exclusionLines pad (kind.excluded r.excluded) scope.neverWord ++ lines) := by
  unfold sectionItems
  split
  · exact .nil
  · exact List.rel_append (List.rel_append hheadings (hW.exclusionLines kind _)) h

theorem Reading.properties (hW : Reading scope pad r W) (optional : Bool)
    (h : (Report.each (fun p => scope.propertyText pad r.record p optional)
      r.record.properties).outcome = .ok lines) :
    List.Forall₂ (W .property) ((membersOf r.record .property).map (memberItem scope r .property))
      lines := by
  rw [membersOf, List.map_map, List.forall₂_map_left_iff]
  exact (outcome_each_eq_ok.1 h).imp fun p line => hW.property p optional line

theorem Reading.methods (hW : Reading scope pad r W) {events : Option EventBinding}
    (h : (Report.each (fun m => scope.methodText pad r.record m events)
      r.record.methods).outcome = .ok lines) :
    List.Forall₂ (W .method) ((membersOf r.record .method).map (memberItem scope r .method))
      lines := by
  rw [membersOf, List.map_map, List.forall₂_map_left_iff]
  exact (outcome_each_eq_ok.1 h).imp fun m line => hW.method m events line

theorem Reading.memberSection (hW : Reading .type pad r W) (heading : String)
    (h : List.Forall₂ (W kind) ((membersOf r.record kind).map (memberItem .type r kind)) lines) :
    List.Forall₂ (W kind) (sectionItems .type r kind)
      (memberSection pad heading (kind.excluded r.excluded) lines) := by
  have hheadings : List.Forall₂ (W kind) Scope.type.headings [pad ++ "// " ++ heading] :=
    .cons (hW.heading kind heading) .nil
  have hempty : (membersOf r.record kind).isEmpty = lines.isEmpty := by
    rw [Bool.eq_iff_iff, List.isEmpty_iff_length_eq_zero, List.isEmpty_iff_length_eq_zero,
      ← h.length_eq, List.length_map]
  have hsection := hW.section hheadings h
  rwa [hempty] at hsection

/-- Texts for the sections of both kinds. -/
def ReadsSections (scope : Scope) (r : Resolution) (W : MemberKind → BodyItem → String → Prop)
    (members : List String) : Prop :=
  ∃ properties methods, members = properties ++ methods ∧
    List.Forall₂ (W .property) (sectionItems scope r .property) properties ∧
    List.Forall₂ (W .method) (sectionItems scope r .method) methods

/-- The lines of a class or an interface: behind the constructor, those of its sections. -/
theorem Reading.classBody (hW : Reading .type pad r W) {shape : DeclarationKind}
    {binding : Option EventBinding}
    (h : (classBody pad shape r (keysOf r.record .method) (keysOf r.record .property)
      binding).outcome = .ok lines) :
    ∃ members, lines = constructorLines pad shape r.record ++ members ∧
      ReadsSections .type r W members := by
  obtain ⟨properties, hproperties, h⟩ := outcome_bind_eq_ok.1 h
  obtain ⟨methods, hmethods, h⟩ := outcome_bind_eq_ok.1 h
  obtain rfl := Except.ok.inj h
  exact ⟨_, List.append_assoc .., _, _, rfl,
    hW.memberSection (r.record.name ++ " properties") (hW.properties _ hproperties),
    hW.memberSection (r.record.name ++ " methods") (hW.methods hmethods)⟩

theorem Reading.namespaceProperties (hW : Reading .block pad r W)
    (h : (namespaceProperties pad r).outcome = .ok lines) :
    List.Forall₂ (W .property) (sectionItems .block r .property) lines := by
  have hempty : (membersOf r.record .property).isEmpty = r.record.properties.isEmpty :=
    List.isEmpty_map
  unfold Declaration.namespaceProperties at h
  split at h
  next hnone =>
    obtain rfl := Except.ok.inj h
    rw [sectionItems, if_pos (hempty.trans hnone)]
    exact .nil
  next hsome =>
    obtain ⟨methods, hmethods, h⟩ := outcome_bind_eq_ok.1 h
    obtain ⟨properties, hproperties, h⟩ := outcome_bind_eq_ok.1 h
    obtain rfl := Except.ok.inj h
    obtain rfl := keysOf_methods hmethods
    have hsection := hW.section .nil (hW.properties false hproperties)
    rwa [hempty, if_neg hsome] at hsection

theorem Reading.namespaceMethods (hW : Reading .block pad r W) {binding : Option EventBinding}
    (h : (namespaceMethods pad r binding).outcome = .ok lines) :
    List.Forall₂ (W .method) (sectionItems .block r .method) lines := by
  have hempty : (membersOf r.record .method).isEmpty = r.record.methods.isEmpty :=
    List.isEmpty_map
  unfold Declaration.namespaceMethods at h
  split at h
  next hnone =>
    obtain rfl := Except.ok.inj h
    rw [sectionItems, if_pos (hempty.trans hnone)]
    exact .nil
  next hsome =>
    obtain ⟨properties, hproperties, h⟩ := outcome_bind_eq_ok.1 h
    obtain ⟨methods, hmethods, h⟩ := outcome_bind_eq_ok.1 h
    obtain rfl := Except.ok.inj h
    obtain rfl := keysOf_properties hproperties
    have hsection := hW.section .nil (hW.methods hmethods)
    rwa [hempty, if_neg hsome] at hsection

/-- The lines of a namespace: behind the event types, those of its sections. -/
theorem Reading.namespaceMembers (hW : Reading .block pad r W) {ctx : Context} {n : Node}
    (h : (namespaceMembers ctx n pad r).outcome = .ok lines) :
    ∃ events members, lines = events ++ members ∧ ReadsSections .block r W members := by
  obtain ⟨events, -, h⟩ := outcome_bind_eq_ok.1 h
  obtain ⟨properties, hproperties, h⟩ := outcome_bind_eq_ok.1 h
  obtain ⟨methods, hmethods, h⟩ := outcome_bind_eq_ok.1 h
  obtain rfl := Except.ok.inj h
  exact ⟨_, _, List.append_assoc .., _, _, rfl, hW.namespaceProperties hproperties,
    hW.namespaceMethods hmethods⟩

end Reading

end Sections

/-! ### Blocks -/

section Blocks

variable {ctx : Context} {n : Node} {b : Branch} {text : String}

/-- Where the members of a node are declared. -/
def scopeOf (record : TypeRecord) (children : List Branch) : Scope :=
  if record.kind.instantiable ∨ children.isEmpty then .type else .block

/-- What opens the declaration of a node, up to its name. -/
def Context.opening (ctx : Context) (n : Node) (record : TypeRecord) (scope : Scope) : String :=
  indentation n.path.depth ++ declareWord n.path ++ (match scope with
    | .type => (ctx.declarationKind n record).keyword
    | .block => "namespace") ++ " " ++ ctx.baseName n ++ " "

/-- Lines stand between the braces behind an opening. -/
def HasBlock (text opening : String) (lines : List String) : Prop :=
  ∃ front clause back, text = front ++ opening ++ clause ++ "\x7b\n" ++ linesText lines ++ back

/-- The block of a node, written as its items are behind some other lines. -/
def DeclaresMembers (ctx : Context) (n : Node) (r : Resolution) (scope : Scope) (text : String)
    (others : List String) : Prop :=
  ∃ members, WritesAll scope (indentation n.path.depth ++ "\t") (bodyItems scope r) members ∧
    HasBlock text (ctx.opening n r.record scope) (others ++ members)

/-- The block of a node, with sections that can be read behind some other lines. -/
def HasSections (ctx : Context) (n : Node) (r : Resolution) (scope : Scope)
    (W : MemberKind → BodyItem → String → Prop) (text : String) (others : List String) : Prop :=
  ∃ members, ReadsSections scope r W members ∧
    HasBlock text (ctx.opening n r.record scope) (others ++ members)

theorem HasSections.declaresMembers {scope : Scope} {others : List String}
    (h : HasSections ctx n r scope (fun _ => Writes scope (indentation n.path.depth ++ "\t")) text
      others) : DeclaresMembers ctx n r scope text others := by
  obtain ⟨_, ⟨properties, methods, rfl, hproperties, hmethods⟩, hblock⟩ := h
  exact ⟨_, List.rel_append hproperties hmethods, hblock⟩

theorem HasBlock.append {text opening : String} {lines : List String}
    (h : HasBlock text opening lines) (more : String) : HasBlock (text ++ more) opening lines := by
  obtain ⟨front, clause, back, rfl⟩ := h
  exact ⟨front, clause, back ++ more, by simp only [String.append_assoc]⟩

/-- The text of a class or an interface: its lines between braces, behind its opening and the clause
for the extended type. -/
theorem classText_eq_ok (h : (classText ctx n r).outcome = .ok text) :
    ∃ events body front,
      (ctx.eventTypes n r.record (indentation n.path.depth) (some (ctx.fullName n))).outcome =
        .ok events ∧
      (classBody (indentation n.path.depth ++ "\t") (ctx.declarationKind n r.record) r
        (keysOf r.record .method) (keysOf r.record .property) (events.map (·.binding))).outcome =
          .ok body ∧
      text = front ++ ctx.opening n r.record .type ++ extendsClause ctx r.record ++ "\x7b\n" ++
        linesText body ++ (indentation n.path.depth ++ "\x7d\n") := by
  obtain ⟨methods, hmethods, h⟩ := outcome_bind_eq_ok.1 h
  obtain ⟨properties, hproperties, h⟩ := outcome_bind_eq_ok.1 h
  obtain ⟨events, hevents, h⟩ := outcome_bind_eq_ok.1 h
  obtain ⟨body, hbody, htext⟩ := outcome_bind_eq_ok.1 h
  obtain rfl := keysOf_methods hmethods
  obtain rfl := keysOf_properties hproperties
  obtain rfl := Except.ok.inj htext
  cases events with
  | none =>
    refine ⟨none, body, docComment (indentation n.path.depth) r.record, hevents, hbody, ?_⟩
    simp only [Context.opening, String.append_assoc]
  | some events =>
    refine ⟨some events, body, Text.join "\n" events.declarations ++ "\n" ++
      docComment (indentation n.path.depth) r.record, hevents, hbody, ?_⟩
    simp only [Context.opening, String.append_assoc]

theorem namespaceText_eq (members : List String) (children : String) :
    namespaceText ctx n members children = ctx.opening n r.record .block ++ "\x7b\n" ++
      linesText members ++ (children ++ (indentation n.path.depth ++ "\x7d\n")) := by
  have hword : "namespace " = "namespace" ++ " " := rfl
  have hbrace : " \x7b\n" = " " ++ "\x7b\n" := rfl
  simp only [namespaceText, Context.opening, hword, hbrace, String.append_assoc]

section Reading

variable {W : MemberKind → BodyItem → String → Prop}

theorem HasSections.append {scope : Scope} {others : List String}
    (h : HasSections ctx n r scope W text others) (more : String) :
    HasSections ctx n r scope W (text ++ more) others := by
  obtain ⟨members, hreads, hblock⟩ := h
  exact ⟨members, hreads, hblock.append more⟩

/-- In a class or an interface, nothing stands in front of the members but the constructor. -/
theorem Reading.classText (hW : Reading .type (indentation n.path.depth ++ "\t") r W)
    (h : (classText ctx n r).outcome = .ok text) :
    HasSections ctx n r .type W text
      (constructorLines (indentation n.path.depth ++ "\t") (ctx.declarationKind n r.record)
        r.record) := by
  obtain ⟨events, body, front, -, hbody, rfl⟩ := classText_eq_ok h
  obtain ⟨members, rfl, hreads⟩ := hW.classBody hbody
  exact ⟨members, hreads, front, extendsClause ctx r.record,
    indentation n.path.depth ++ "\x7d\n", rfl⟩

theorem Reading.namespaceText (hW : Reading .block (indentation n.path.depth ++ "\t") r W)
    {members : List String} (children : String)
    (h : (Declaration.namespaceMembers ctx n (indentation n.path.depth ++ "\t") r).outcome =
      .ok members) :
    ∃ events, HasSections ctx n r .block W (namespaceText ctx n members children) events := by
  obtain ⟨events, written, rfl, hreads⟩ := hW.namespaceMembers h
  refine ⟨events, written, hreads, "", "", children ++ (indentation n.path.depth ++ "\x7d\n"), ?_⟩
  rw [namespaceText_eq, String.empty_append, String.append_empty]

end Reading

theorem resolution_of_resolved {r : Resolution} (h : (ctx.resolved n).outcome = .ok r) :
    n.resolution = some r := by
  unfold Context.resolved at h
  split at h
  next found hfound => rw [hfound, Except.ok.inj h]
  · cases h

/-- The text of a node that is declared: that of a class or an interface, with a namespace behind it
for the children if there are any, or that of a namespace which has the members as well. -/
inductive BranchText (ctx : Context) (n : Node) (children : List Branch) (r : Resolution) :
    String → Prop
  | type {own : String} (hnone : children.isEmpty = true)
      (hown : (classText ctx n r).outcome = .ok own) : BranchText ctx n children r own
  | both {own nested : String} (hkind : r.record.kind.instantiable = true)
      (hsome : children.isEmpty = false) (hown : (classText ctx n r).outcome = .ok own)
      (hnested : (branchTexts ctx children).outcome = .ok nested) :
      BranchText ctx n children r (own ++ namespaceText ctx n [] nested)
  | block {members : List String} {nested : String} (hkind : r.record.kind.instantiable = false)
      (hsome : children.isEmpty = false)
      (hmembers : (namespaceMembers ctx n (indentation n.path.depth ++ "\t") r).outcome =
        .ok members)
      (hnested : (branchTexts ctx children).outcome = .ok nested) :
      BranchText ctx n children r (namespaceText ctx n members nested)

theorem branchText_of_declared {children : List Branch}
    (hname : isDeclarable (ctx.baseName n) = true)
    (hfull : (Branch.fork n children).isPlaceholder = false)
    (h : (branchText ctx (.fork n children)).outcome = .ok text) :
    ∃ r, n.resolution = some r ∧ BranchText ctx n children r text := by
  rw [branchText, if_neg (by simp [hname]), if_neg (by simp [hfull])] at h
  obtain ⟨r, hr, h⟩ := outcome_bind_eq_ok.1 h
  refine ⟨r, resolution_of_resolved hr, ?_⟩
  by_cases hkind : r.record.kind.instantiable
  · rw [if_pos hkind] at h
    obtain ⟨own, hown, h⟩ := outcome_bind_eq_ok.1 h
    split at h
    next hnone =>
      obtain rfl := Except.ok.inj h
      exact .type hnone hown
    next hsome =>
      obtain ⟨nested, hnested, h⟩ := outcome_bind_eq_ok.1 h
      obtain rfl := Except.ok.inj h
      exact .both hkind (Bool.eq_false_iff.2 hsome) hown hnested
  · rw [if_neg hkind] at h
    by_cases hnone : children.isEmpty
    · rw [if_pos hnone] at h
      exact .type hnone h
    · rw [if_neg hnone] at h
      obtain ⟨nested, hnested, h⟩ := outcome_bind_eq_ok.1 h
      obtain ⟨members, hmembers, h⟩ := outcome_bind_eq_ok.1 h
      obtain rfl := Except.ok.inj h
      exact .block (Bool.eq_false_iff.2 hkind) (Bool.eq_false_iff.2 hnone) hmembers hnested

/-- A node that is declared has one block with its sections. -/
theorem branchText_hasSections {W : Scope → Resolution → MemberKind → BodyItem → String → Prop}
    (hW : ∀ scope r, Reading scope (indentation b.node.path.depth ++ "\t") r (W scope r))
    (hname : isDeclarable (ctx.baseName b.node) = true) (hfull : b.isPlaceholder = false)
    (h : (branchText ctx b).outcome = .ok text) :
    ∃ r, b.node.resolution = some r ∧ ∃ others,
      HasSections ctx b.node r (scopeOf r.record b.children)
        (W (scopeOf r.record b.children) r) text others := by
  obtain ⟨n, children⟩ := b
  obtain ⟨r, hr, htext⟩ := branchText_of_declared hname hfull h
  refine ⟨r, hr, ?_⟩
  cases htext with
  | type hnone hown =>
    have hscope : scopeOf r.record (Branch.fork n children).children = .type := if_pos (.inr hnone)
    rw [hscope]
    exact ⟨_, (hW .type r).classText hown⟩
  | both hkind hsome hown hnested =>
    have hscope : scopeOf r.record (Branch.fork n children).children = .type := if_pos (.inl hkind)
    rw [hscope]
    exact ⟨_, ((hW .type r).classText hown).append _⟩
  | block hkind hsome hmembers hnested =>
    have hscope : scopeOf r.record (Branch.fork n children).children = .block :=
      if_neg (by simp [hkind, hsome, Branch.children])
    rw [hscope]
    exact (hW .block r).namespaceText _ hmembers

theorem classText_declaresMembers (h : (classText ctx n r).outcome = .ok text) :
    DeclaresMembers ctx n r .type text
      (constructorLines (indentation n.path.depth ++ "\t") (ctx.declarationKind n r.record)
        r.record) :=
  ((reading_writes .type _ r).classText h).declaresMembers

/-- A node that is declared has one block with its members. -/
theorem branchText_declaresMembers (hname : isDeclarable (ctx.baseName b.node) = true)
    (hfull : b.isPlaceholder = false) (h : (branchText ctx b).outcome = .ok text) :
    ∃ r, b.node.resolution = some r ∧ ∃ others,
      DeclaresMembers ctx b.node r (scopeOf r.record b.children) text others := by
  obtain ⟨r, hr, others, hsections⟩ :=
    branchText_hasSections (fun scope r => reading_writes scope _ r) hname hfull h
  exact ⟨r, hr, others, hsections.declaresMembers⟩

end Blocks

end Writing

end ApiTypings.Declaration
