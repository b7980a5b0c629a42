import ApiTypings.Proofs.Declaration.Exclusion
import ApiTypings.Proofs.Declaration.Parameter

/-!
The lines of members.

A member that was not removed is declared by a text of three parts: a deprecation marker or nothing,
the declaration, and for a method the note on what its optional parameters lost. A class keeps the
marker of a property; a namespace and the root leave it out. A method keeps marker and note, unless
it is replaced by its overloads, which have neither; the root leaves both out.
-/

namespace ApiTypings.Declaration

open Report

/-! ### Narrowing -/

/-- Whether the subscriptions of a type are narrowed: its events are declared, and one survives. -/
def narrows (options : Options) (record : TypeRecord) : Bool :=
  options.generateEventTypes && (Exclusion.survivingEvents record).toOption.any (!·.isEmpty)

/-- Whether a method is replaced by overloads. -/
def isNarrowed (options : Options) (record : TypeRecord) (m : Method) : Bool :=
  narrows options record && m.name.isTextIn eventMethods

variable {ctx : Context} {n : Node} {r : Resolution} {scope : Scope} {pad line : String}
  {m : Method} {declared : List DeclaredParameter}

/-- Event types are declared exactly where subscriptions are narrowed. -/
theorem isSome_eventTypes {record : TypeRecord} {thisType : Option String}
    {events : Option EventTypes} (h : (ctx.eventTypes n record pad thisType).outcome = .ok events) :
    (events.map (·.binding)).isSome = narrows ctx.options record := by
  rw [Option.isSome_map]
  unfold Context.eventTypes at h
  unfold narrows
  split at h
  next hwanted =>
    obtain ⟨survivors, hsurvivors, h⟩ := outcome_bind_eq_ok.1 h
    have hfound : Exclusion.survivingEvents record = .ok survivors := hsurvivors
    rw [hwanted, hfound, Except.toOption, Option.any_some, Bool.true_and]
    split at h
    next hnone =>
      obtain rfl := Except.ok.inj h
      rw [hnone]
      rfl
    next hsome =>
      obtain ⟨mapped, -, h⟩ := outcome_bind_eq_ok.1 h
      obtain rfl := Except.ok.inj h
      rw [Bool.eq_false_iff.2 hsome]
      rfl
  next hunwanted =>
    obtain rfl := Except.ok.inj h
    rw [Bool.eq_false_iff.2 hunwanted]
    rfl

theorem eventOverloads_ne_nil {name : Json} (events : EventBinding)
    (h : name.isTextIn eventMethods = true) : eventOverloads name events ≠ [] := by
  cases name with
  | str s =>
      have hs : s = "addEventListener" ∨ s = "removeEventListener" ∨ s = "fireEvent" := by
        simpa [Json.isTextIn, eventMethods] using h
      rw [← or_assoc] at hs
      simp only [eventOverloads]
      split
      · exact List.cons_ne_nil _ _
      next hother =>
        rw [if_pos (hs.resolve_left hother)]
        exact List.cons_ne_nil _ _
  | _ => simp [Json.isTextIn] at h

/-- A method has overloads exactly if it is narrowed. -/
theorem isEmpty_narrowedOverloads {name : Json} {binding : Option EventBinding}
    {overloads : List String} (h : narrowedOverloads name binding = .ok overloads) :
    overloads.isEmpty = !(binding.isSome && name.isTextIn eventMethods) := by
  cases binding with
  | none =>
      obtain rfl := Except.ok.inj h
      rfl
  | some events =>
      obtain ⟨isEventMethod, hname, rfl⟩ := Success.map_eq_ok.1 h
      rw [← Exclusion.isAmong_texts hname, Option.isSome_some, Bool.true_and]
      cases isEventMethod with
      | false => rfl
      | true =>
          have hevent : name.isTextIn eventMethods = true := (Exclusion.isAmong_texts hname).symm
          exact Bool.eq_false_iff.2 fun hnil =>
            eventOverloads_ne_nil events hevent (List.isEmpty_iff.1 hnil)

/-- The event methods have names that can be declared. -/
theorem isTextIn_eventMethods_of_not_identifier {name : Json} (h : isIdentifier name = .ok false) :
    name.isTextIn eventMethods = false := by
  rw [Bool.eq_false_iff]
  intro hevent
  cases name with
  | str s =>
      have hmember : s ∈ eventMethods := by simpa [Json.isTextIn] using hevent
      have hvalid : ∀ s ∈ eventMethods, isIdentifier (.str s) = .ok true := by
        simp only [eventMethods, List.forall_mem_cons]
        refine ⟨?_, ?_, ?_, by simp⟩ <;> decide
      rw [hvalid s hmember] at h
      cases h
  | _ => simp [Json.isTextIn] at hevent

/-! ### Parameters that lost their marks -/

/-- The parameters of a method as they are declared, if their names can be looked up. -/
def declaredOf (m : Method) : List DeclaredParameter :=
  (declareParameters m.parameters).outcome.toOption.getD []

/-- The names of the optional parameters of a method that are declared as if they had to be
given. -/
def lostMarks (m : Method) : List Json := demandedNames m.parameters (declaredOf m)

theorem declaredAs_of_declareFrom {alone : Bool} {parameters : List Parameter}
    (h : (declareFrom alone parameters).outcome = .ok declared) :
    DeclaredAs alone parameters declared := by
  induction parameters generalizing declared with
  | nil =>
      obtain rfl := Except.ok.inj h
      exact .nil
  | cons p later ih =>
      obtain ⟨head, hhead, h⟩ := outcome_bind_eq_ok.1 h
      obtain ⟨others, hothers, h⟩ := outcome_bind_eq_ok.1 h
      obtain rfl := Except.ok.inj h
      obtain ⟨name, hname, hhead⟩ := outcome_bind_eq_ok.1 hhead
      obtain ⟨type, htype, hhead⟩ := outcome_bind_eq_ok.1 hhead
      obtain rfl := Except.ok.inj hhead
      exact .cons hname (Except.ok.inj htype).symm rfl (ih hothers)

theorem declaredOf_eq (h : (declareParameters m.parameters).outcome = .ok declared) :
    declaredOf m = declared := by
  rw [declaredOf, h]
  rfl

theorem clearedNames_eq (h : (declareParameters m.parameters).outcome = .ok declared) :
    clearedNames declared = lostMarks m := by
  rw [lostMarks, declaredOf_eq h]
  exact (declaredAs_of_declareFrom h).clearedNames fun halone => by simpa using halone

/-! ### What a line declares -/

/-- A declaration with what stands in front of it, on a line of its own or commented out. -/
inductive DeclaresBehind (pad mark declaration : String) : String → Prop
  | plain : DeclaresBehind pad mark declaration (pad ++ mark ++ declaration)
  | skipped (reason : String) :
    DeclaresBehind pad mark declaration (skippedLine pad reason (mark ++ declaration))

theorem DeclaresBehind.unmarked {declaration : String} :
    DeclaresBehind pad "" declaration (pad ++ declaration) := by
  have hplain : DeclaresBehind pad "" declaration (pad ++ "" ++ declaration) := .plain
  rwa [String.append_empty] at hplain

theorem DeclaresBehind.skippedUnmarked {declaration : String} (reason : String) :
    DeclaresBehind pad "" declaration (skippedLine pad reason declaration) := by
  have hskipped : DeclaresBehind pad "" declaration (skippedLine pad reason ("" ++ declaration)) :=
    .skipped reason
  rwa [String.empty_append] at hskipped

/-- A property as it is declared outside a class. -/
def variableDeclaration (p : Property) : String :=
  variableWord p ++ " " ++ p.name.display ++ ": " ++ (TypeText.declared p.type).value ++ ";"

/-- The declaration of a property. -/
inductive PropertyDeclaration (p : Property) : Scope → String → Prop
  | type {key : String} (hkey : memberKey p.name = .ok key) (mark : String) :
    PropertyDeclaration p .type ((if p.readOnly then "readonly " else "") ++ key ++ mark ++ ": " ++
      (TypeText.declared p.type).value ++ ";")
  | block : PropertyDeclaration p .block (variableDeclaration p)

/-- What stands behind the word that introduces a method. -/
def signature (m : Method) : String :=
  m.name.display ++ "(" ++ parameterText (declaredOf m) ++ "): " ++ (returnType m).value ++ ";"

/-- The note on the parameters that lost their marks. -/
def clearedNote (names : List Json) : String :=
  if names.isEmpty then ""
  else " // WARNING: optional flag cleared for " ++ Text.join ", " (names.map Json.display)

/-- The marker that a property keeps in its scope. -/
def Scope.propertyMark (p : Property) : Scope → String
  | type => deprecatedMark p.deprecation
  | block => ""

/-- How a property that was not removed is declared. -/
def DeclaresProperty (scope : Scope) (pad : String) (p : Property) (line : String) : Prop :=
  ∃ declaration, PropertyDeclaration p scope declaration ∧
    DeclaresBehind pad (scope.propertyMark p) declaration line

theorem propertyLine_declares {p : Property} {names : List NameKey} {optional : Bool}
    (hremoval : removal? p.deprecation = none)
    (h : (propertyLine pad p names optional).outcome = .ok line) :
    ∃ declaration, PropertyDeclaration p .type declaration ∧
      line = pad ++ deprecatedMark p.deprecation ++ declaration := by
  rw [propertyLine, hremoval] at h
  obtain ⟨key, hkey, h⟩ := outcome_bind_eq_ok.1 h
  obtain ⟨type, htype, h⟩ := outcome_bind_eq_ok.1 h
  obtain rfl := Except.ok.inj htype
  obtain rfl := Except.ok.inj h
  refine ⟨_, .type hkey (if optional then "?" else ""), ?_⟩
  simp only [String.append_assoc]

theorem classProperty_declares {p : Property} {names : List NameKey} {optional : Bool}
    (hremoval : removal? p.deprecation = none)
    (h : (classProperty pad r.record p names optional).outcome = .ok line) :
    DeclaresProperty .type pad p line := by
  unfold classProperty at h
  split at h
  · obtain ⟨plain, hplain, h⟩ := outcome_bind_eq_ok.1 h
    obtain ⟨declaration, hdeclaration, rfl⟩ := propertyLine_declares hremoval hplain
    obtain rfl := Except.ok.inj h
    rw [String.empty_append]
    exact ⟨declaration, hdeclaration, .skipped _⟩
  · obtain ⟨declaration, hdeclaration, rfl⟩ := propertyLine_declares hremoval h
    exact ⟨declaration, hdeclaration, .plain⟩

theorem namespaceProperty_declares {p : Property} {names : List NameKey}
    (hremoval : removal? p.deprecation = none)
    (h : (namespaceProperty pad r.record p names).outcome = .ok line) :
    DeclaresProperty .block pad p line := by
  rw [namespaceProperty, hremoval] at h
  obtain ⟨type, htype, h⟩ := outcome_bind_eq_ok.1 h
  obtain rfl := Except.ok.inj htype
  refine ⟨_, .block, ?_⟩
  dsimp only at h
  split at h
  · obtain rfl := Except.ok.inj h
    exact .skippedUnmarked _
  · obtain ⟨valid, -, h⟩ := outcome_bind_eq_ok.1 h
    obtain rfl := Except.ok.inj h
    cases valid with
    | true => exact .unmarked
    | false => exact .skippedUnmarked _

theorem propertyText_declares {p : Property} {optional : Bool}
    (hremoval : removal? p.deprecation = none)
    (h : (scope.propertyText pad r.record p optional).outcome = .ok line) :
    DeclaresProperty scope pad p line := by
  cases scope with
  | type => exact classProperty_declares hremoval h
  | block => exact namespaceProperty_declares hremoval h

/-! ### Methods -/

theorem listedNames_eq {names : List Json} {text : String} (h : listedNames names = .ok text) :
    text = Text.join ", " (names.map Json.display) := by
  obtain ⟨texts, htexts, rfl⟩ := Success.map_eq_ok.1 h
  refine congrArg (Text.join ", ") ?_
  clear h
  induction names generalizing texts with
  | nil => exact (Except.ok.inj htexts).symm
  | cons name rest ih =>
      rw [List.mapM_cons] at htexts
      obtain ⟨text, htext, htexts⟩ := Success.bind_eq_ok.1 htexts
      obtain ⟨others, hothers, htexts⟩ := Success.bind_eq_ok.1 htexts
      obtain rfl := Except.ok.inj htexts
      have hdisplay : text = name.display := by
        cases name with
        | str s => exact (Except.ok.inj htext).symm
        | _ => cases htext
      rw [List.map_cons, hdisplay, ih others hothers]

theorem reportCleared_eq_ok {names : List Json} {note : String}
    (h : (reportCleared m names).outcome = .ok note) : note = clearedNote names := by
  unfold reportCleared at h
  unfold clearedNote
  split at h
  next hnone =>
    rw [if_pos hnone]
    exact (Except.ok.inj h).symm
  next hsome =>
    obtain ⟨text, htext, h⟩ := outcome_bind_eq_ok.1 h
    obtain ⟨-, -, h⟩ := outcome_bind_eq_ok.1 h
    rw [if_neg hsome, ← listedNames_eq htext]
    exact (Except.ok.inj h).symm

theorem plainMethodLine_declares {keyword : String}
    (h : (plainMethodLine pad m keyword).outcome = .ok line) :
    (declareParameters m.parameters).outcome = .ok (declaredOf m) ∧
      line = pad ++ deprecatedMark m.deprecation ++
        (keyword ++ signature m ++ clearedNote (lostMarks m)) := by
  obtain ⟨declared, hdeclared, h⟩ := outcome_bind_eq_ok.1 h
  obtain ⟨returns, hreturns, h⟩ := outcome_bind_eq_ok.1 h
  obtain ⟨note, hnote, h⟩ := outcome_bind_eq_ok.1 h
  obtain rfl := Except.ok.inj hreturns
  obtain rfl := Except.ok.inj h
  rw [clearedNames_eq hdeclared] at hnote
  rw [signature, declaredOf_eq hdeclared, ← reportCleared_eq_ok hnote]
  refine ⟨hdeclared, ?_⟩
  simp only [String.append_assoc]

/-- How a method that was not removed is declared: by its overloads if it is narrowed, and otherwise
by its signature, behind the marker of its deprecation and in front of the note on its
parameters. -/
def DeclaresMethod (options : Options) (record : TypeRecord) (scope : Scope) (pad : String)
    (m : Method) (line : String) : Prop :=
  if isNarrowed options record m then
    ∃ events, line = Text.join "\n" ((eventOverloads m.name events).map fun o =>
      pad ++ scope.functionWord ++ o)
  else (declareParameters m.parameters).outcome = .ok (declaredOf m) ∧
    DeclaresBehind pad (deprecatedMark m.deprecation)
      (scope.functionWord ++ signature m ++ clearedNote (lostMarks m)) line

theorem methodLine_declares (scope : Scope) {options : Options} {record : TypeRecord}
    {names : List NameKey} {binding : Option EventBinding}
    (hremoval : removal? m.deprecation = none) (hbinding : binding.isSome = narrows options record)
    (h : (methodLine pad m names binding scope.functionWord).outcome = .ok line) :
    DeclaresMethod options record scope pad m line := by
  rw [methodLine, hremoval] at h
  obtain ⟨overloads, hoverloads, h⟩ := outcome_bind_eq_ok.1 h
  have hempty := isEmpty_narrowedOverloads hoverloads
  rw [hbinding, ← isNarrowed] at hempty
  rw [hempty] at h
  unfold DeclaresMethod
  cases hnarrowed : isNarrowed options record m with
  | true =>
      rw [hnarrowed] at h hempty
      have hne : overloads ≠ [] := fun hnil => by simp [hnil] at hempty
      obtain ⟨events, rfl⟩ := eq_eventOverloads hoverloads hne
      obtain rfl := Except.ok.inj h
      exact ⟨events, rfl⟩
  | false =>
      rw [hnarrowed] at h
      obtain ⟨hdeclared, rfl⟩ := plainMethodLine_declares h
      exact ⟨hdeclared, .plain⟩

theorem namespaceMethod_declares {options : Options} {record : TypeRecord} {names : List NameKey}
    {binding : Option EventBinding} (hremoval : removal? m.deprecation = none)
    (hbinding : binding.isSome = narrows options record)
    (h : (namespaceMethod pad m names binding).outcome = .ok line) :
    DeclaresMethod options record .block pad m line := by
  rw [namespaceMethod, hremoval] at h
  obtain ⟨valid, hvalid, h⟩ := outcome_bind_eq_ok.1 h
  cases valid with
  | true => exact methodLine_declares .block hremoval hbinding h
  | false =>
      obtain ⟨plain, hplain, h⟩ := outcome_bind_eq_ok.1 h
      obtain rfl := Except.ok.inj h
      have hname := isTextIn_eventMethods_of_not_identifier hvalid
      rw [methodLine, hremoval] at hplain
      obtain ⟨overloads, hoverloads, hplain⟩ := outcome_bind_eq_ok.1 hplain
      obtain rfl := Except.ok.inj hoverloads
      obtain ⟨hdeclared, rfl⟩ := plainMethodLine_declares hplain
      rw [DeclaresMethod, isNarrowed, hname, Bool.and_false, if_neg Bool.false_ne_true,
        String.empty_append]
      exact ⟨hdeclared, .skipped _⟩

theorem methodText_declares {options : Options} {binding : Option EventBinding}
    (hremoval : removal? m.deprecation = none)
    (hbinding : binding.isSome = narrows options r.record)
    (h : (scope.methodText pad r.record m binding).outcome = .ok line) :
    DeclaresMethod options r.record scope pad m line := by
  cases scope with
  | type => exact methodLine_declares .type hremoval hbinding h
  | block => exact namespaceMethod_declares hremoval hbinding h

end ApiTypings.Declaration
