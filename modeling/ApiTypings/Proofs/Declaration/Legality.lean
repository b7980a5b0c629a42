import ApiTypings.Proofs.Declaration.Comment
import ApiTypings.Proofs.Declaration.Exclusion
import ApiTypings.Proofs.Declaration.Key

/-!
Keys that the declaration language allows.

A member of a class or an interface is declared under an identifier or a literal, what is declared
outside of them under an identifier that is not reserved. Only the properties of a class have their
names turned into literals if need be, and only a namespace comments out what it cannot declare.
Every other name is written as it is: that of a method, of a removed member, of an excluded one, and
of each member of the root. Where names are looked at, a line feed at the end goes unnoticed, and a
literal is not kept on one line.
-/

namespace ApiTypings

open Exclusion

namespace Declaration

open Report

/-! ### Legal keys -/

/-- Whether characters end a literal with its quote, and that on the same line. A backslash takes
the next character with it. -/
def closesLiteral (quote : Char) : List Char → Bool
  | [] => false
  | ['\\'] => false
  | '\\' :: c :: rest => !breaksLine c && closesLiteral quote rest
  | c :: rest => if c = quote then rest.isEmpty else !breaksLine c && closesLiteral quote rest

/-- Whether characters form a literal, in single or in double quotes. -/
def isLiteral : List Char → Bool
  | [] => false
  | c :: rest => (c == '\'' || c == '"') && closesLiteral c rest

/-- Whether a key can be declared: an identifier or a literal in a type, an identifier that is not
reserved elsewhere. -/
def Scope.isLegal (key : String) : Scope → Bool
  | type => isProperIdentifier key.toList || isLiteral key.toList
  | block => isProperIdentifier key.toList && !isReserved key

/-- Whether a text stands on one line. -/
def isOneLine (s : String) : Bool := s.toList.all (!breaksLine ·)

variable {c : Char} {cs : List Char} {s name : String}

theorem isLiteral_of_like (h : isIdentifierLike cs = true) : isLiteral cs = false := by
  cases cs with
  | nil => rfl
  | cons c rest =>
      have hstart := (Bool.and_eq_true_iff.1 h).1
      have hquote : (c == '\'' || c == '"') = false := by
        rw [Bool.or_eq_false_iff, beq_eq_false_iff_ne, beq_eq_false_iff_ne]
        exact ⟨fun hc => absurd (hc ▸ hstart) (by decide),
          fun hc => absurd (hc ▸ hstart) (by decide)⟩
      rw [isLiteral, hquote, Bool.false_and]

/-- A quoted name is closed by its last quote, on the line of the first if the name has one line. -/
theorem closesLiteral_quoted (cs : List Char) :
    closesLiteral '\'' (cs.flatMap quotedKeyChar ++ ['\'']) = cs.all (!breaksLine ·) := by
  induction cs with
  | nil => rfl
  | cons c cs ih =>
      rw [List.flatMap_cons, List.append_assoc, List.all_cons]
      -- An escaped character is taken together with its backslash, and any other one is no quote.
      by_cases hescaped : c = '\\' ∨ c = '\''
      · rw [quotedKeyChar, if_pos hescaped, List.cons_append, List.singleton_append, closesLiteral,
          ih]
      · obtain ⟨hbackslash, hquote⟩ := not_or.1 hescaped
        rw [quotedKeyChar, if_neg hescaped, List.singleton_append, closesLiteral, if_neg hquote, ih]
        · exact fun h _ => hbackslash h
        · exact fun _ _ h _ => hbackslash h

/-- The key of a property is legal if its name stands on one line. -/
theorem isLegal_memberKeyText (name : String) :
    Scope.type.isLegal (memberKeyText name) = isOneLine name := by
  rw [memberKeyText]
  split
  next hlike =>
    have hproper := isProperIdentifier_iff name.toList
    rw [Scope.isLegal, isLiteral_of_like hlike, Bool.or_false, isOneLine, Bool.eq_iff_iff, hproper]
    simp [hlike]
  · rw [Scope.isLegal, quotedKeyText, String.toList_ofList, List.cons_append]
    have hquote : isIdentifierStart '\'' = false := by decide
    rw [isProperIdentifier, hquote, Bool.false_and, Bool.false_or, isLiteral, closesLiteral_quoted]
    rfl

/-- A name that is declared outside a class is legal if it stands on one line. -/
theorem isLegal_of_hasIdentifier {name : Json} (h : hasIdentifier name = true) :
    Scope.block.isLegal name.display = isOneLine name.display := by
  cases name with
  | str s =>
      have hname : isIdentifierLike s.toList = true ∧ isReserved s = false := by
        simpa [hasIdentifier, isIdentifier, matchable, Except.map, Except.toOption] using h
      have hproper := isProperIdentifier_iff s.toList
      rw [Json.display_str, Scope.isLegal, hname.2, Bool.not_false, Bool.and_true, isOneLine,
        Bool.eq_iff_iff, hproper]
      simp [hname.1]
  | _ => simp [hasIdentifier, isIdentifier, matchable, Except.map, Except.toOption] at h

/-! ### The key of an item -/

/-- The key under which a member is declared. -/
def Scope.keyOf (name : Json) : Scope → MemberKind → String
  | type, .property => memberKeyText name.display
  | _, _ => name.display

/-- The key that an item declares, unless it is commented out. -/
def BodyItem.key? (scope : Scope) (kind : MemberKind) : BodyItem → Option String
  | .layout => none
  | .never name commented => if commented then none else some name.display
  | .member name commented => if commented then none else some (scope.keyOf name kind)

/-- The words that introduce what is declared. -/
def Scope.words : Scope → List String
  | type => ["", "readonly "]
  | block => ["const ", "let ", "function "]

/-- A comment of its own in front of a declaration, if there is one. -/
inductive Notice (pad : String) : String → Prop
  | none : Notice pad ""
  | mark (body : String) : Notice pad (blockComment body ++ " ")
  | removal (body : String) : Notice pad (blockComment body ++ "\n" ++ pad)

/-- What cannot belong to an identifier and stands behind a key. -/
def EndsKey (tail : String) : Prop := ∃ c ∈ [':', '?', '(', '<'], ∃ rest, tail.toList = c :: rest

/-- A line that declares a key. -/
def DeclaresKey (scope : Scope) (pad key line : String) : Prop :=
  ∃ comment word tail, Notice pad comment ∧ word ∈ scope.words ∧ EndsKey tail ∧
    line = pad ++ comment ++ word ++ key ++ tail

/-- What the text of an item shows: the key that it declares, on each of its lines if there are
overloads, or that what is declared stands behind slashes. -/
inductive ShowsKey (scope : Scope) (pad : String) : Option String → String → Prop
  | heading (text : String) : ShowsKey scope pad none (pad ++ "// " ++ text)
  | blank : ShowsKey scope pad none ""
  | hidden {comment : String} (hcomment : Notice pad comment) (declared : String) :
    ShowsKey scope pad none (pad ++ comment ++ "// " ++ declared)
  | skipped (reason declared : String) :
    ShowsKey scope pad none (skippedLine pad reason declared)
  | declared {key : String} {lines : List String} (hne : lines ≠ [])
      (h : ∀ line ∈ lines, DeclaresKey scope pad key line) :
    ShowsKey scope pad (some key) (Text.join "\n" lines)

variable {scope : Scope} {kind : MemberKind} {pad key line : String} {r : Resolution}

theorem DeclaresKey.showsKey (h : DeclaresKey scope pad key line) :
    ShowsKey scope pad (some key) line := by
  have hone : Text.join "\n" [line] = line := String.intercalate_singleton
  exact hone ▸ .declared (List.cons_ne_nil _ _) (List.forall_mem_singleton.2 h)

theorem endsKey_colon (rest : String) : EndsKey (": " ++ rest) :=
  ⟨':', by simp, ' ' :: rest.toList, by simp⟩

theorem notice_deprecatedMark (pad : String) (d : Option Deprecation) :
    Notice pad (deprecatedMark d) := by
  cases d with
  | none => exact .none
  | some d =>
      obtain ⟨body, hmark, -⟩ := endings_deprecatedMark d
      exact hmark ▸ .mark body

theorem neverWord_mem_words (scope : Scope) : scope.neverWord ∈ scope.words := by
  cases scope <;> decide

theorem showsKey_tombstone (scope : Scope) (pad name : String) (d : Deprecation)
    (commented : Bool) :
    ShowsKey scope pad (if commented then none else some name)
      (tombstone pad name d commented scope.neverWord) := by
  obtain ⟨body, hbody, -⟩ := endings_tombstone pad name d commented scope.neverWord
  rw [hbody]
  cases commented with
  | true =>
      have hhidden : ShowsKey scope pad none (pad ++ (blockComment body ++ "\n" ++ pad) ++ "// " ++
          (scope.neverWord ++ name ++ ": never;")) := .hidden (.removal body) _
      simpa only [if_true, String.append_assoc] using hhidden
  | false =>
      refine DeclaresKey.showsKey
        ⟨_, scope.neverWord, ": never;", .removal body, neverWord_mem_words scope, ?_, ?_⟩
      · exact endsKey_colon "never;"
      · simp [String.append_assoc]

/-- What is commented out or declared never shows its key. -/
theorem showsKey_of_writes {item : BodyItem} (h : Writes scope pad item line)
    (hitem : ∀ name, item ≠ .member name false) :
    ShowsKey scope pad (item.key? scope kind) line := by
  cases h with
  | heading text => exact .heading text
  | blank => exact .blank
  | excluded name =>
      refine DeclaresKey.showsKey
        ⟨"", scope.neverWord, ": never;", .none, neverWord_mem_words scope, ?_, ?_⟩
      · exact endsKey_colon "never;"
      · simp
  | tombstone name d commented => exact showsKey_tombstone scope pad name.display d commented
  | skipped name reason declared => exact .skipped reason declared
  | _ => exact absurd rfl (hitem _)

/-! ### Members that are declared -/

theorem memberKey_eq {name : Json} (h : memberKey name = .ok key) :
    key = memberKeyText name.display := by
  cases name with
  | str s => exact (Except.ok.inj h).symm
  | _ => simp [memberKey, matchable, Except.map] at h

theorem declaresKey_classProperty {p : Property} {methods : List NameKey} {optional : Bool}
    (hremoval : removal? p.deprecation = none) (hkept : collides r.record p = false)
    (h : (classProperty pad r.record p methods optional).outcome = .ok line) :
    DeclaresKey .type pad (Scope.type.keyOf p.name .property) line := by
  rw [classProperty, hkept, Bool.false_and, if_neg Bool.false_ne_true, propertyLine, hremoval] at h
  obtain ⟨key, hkey, h⟩ := outcome_bind_eq_ok.1 h
  obtain ⟨type, -, h⟩ := outcome_bind_eq_ok.1 h
  obtain rfl := Except.ok.inj h
  obtain rfl := memberKey_eq hkey
  refine ⟨_, if p.readOnly then "readonly " else "", (if optional then "?" else "") ++
    (": " ++ type ++ ";"), notice_deprecatedMark pad p.deprecation, ?_, ?_, ?_⟩
  · cases p.readOnly <;> simp [Scope.words]
  · cases optional with
    | true => exact ⟨'?', by simp, (": " ++ type ++ ";").toList, by simp⟩
    | false => exact ⟨':', by simp, (" " ++ type ++ ";").toList, by simp⟩
  · simp only [Scope.keyOf, String.append_assoc]

theorem declaresKey_namespaceProperty {p : Property} {methods : List NameKey}
    (hremoval : removal? p.deprecation = none) (hkept : collides r.record p = false)
    (hvalid : hasIdentifier p.name = true)
    (h : (namespaceProperty pad r.record p methods).outcome = .ok line) :
    DeclaresKey .block pad p.name.display line := by
  rw [namespaceProperty, hremoval] at h
  obtain ⟨type, -, h⟩ := outcome_bind_eq_ok.1 h
  rw [hkept, if_neg Bool.false_ne_true] at h
  obtain ⟨valid, hidentifier, h⟩ := outcome_bind_eq_ok.1 h
  obtain rfl : valid = true := (hasIdentifier_eq hidentifier).symm.trans hvalid
  obtain rfl := Except.ok.inj h
  refine ⟨"", variableWord p ++ " ", ": " ++ type ++ ";", .none, ?_, ?_, ?_⟩
  · rw [variableWord]
    cases p.readOnly <;> decide
  · exact String.append_assoc .. ▸ endsKey_colon (type ++ ";")
  · simp only [if_true, String.append_assoc, String.append_empty]

/-- Each overload is written under the name of the method. -/
theorem eventOverloads_eq {name : Json} {events : EventBinding} {overload : String}
    (h : overload ∈ eventOverloads name events) :
    ∃ tail, EndsKey tail ∧ overload = name.display ++ tail := by
  have hnarrowed (rest : String) : EndsKey ("<K extends keyof " ++ rest) :=
    ⟨'<', by simp, ("K extends keyof " ++ rest).toList, by simp⟩
  have hplain (rest : String) : EndsKey ("(name: string, " ++ rest) :=
    ⟨'(', by simp, ("name: string, " ++ rest).toList, by simp⟩
  cases name with
  | str s =>
      rw [Json.display_str]
      simp only [eventOverloads] at h
      split at h
      · rcases List.mem_cons.1 h with rfl | h
        · refine ⟨_, hnarrowed (events.mapName ++ ">" ++ "(name: K, callback: (" ++
            thisParameter events ++ "event: " ++ (events.mapName ++ "[K]") ++
            ") => void): void;"), ?_⟩
          simp only [String.append_assoc]
        · obtain rfl := List.mem_singleton.1 h
          exact ⟨_, hplain "callback: (...args: any[]) => void): void;", rfl⟩
      · split at h
        · rcases List.mem_cons.1 h with rfl | h
          · refine ⟨_, hnarrowed (events.mapName ++ ">" ++ "(name: K, event?: " ++
              (events.mapName ++ "[K]") ++ "): void;"), ?_⟩
            simp only [String.append_assoc]
          · obtain rfl := List.mem_singleton.1 h
            exact ⟨_, hplain "event?: any): void;", rfl⟩
        · exact absurd h List.not_mem_nil
  | _ => exact absurd h List.not_mem_nil

theorem showsKey_methodLine (scope : Scope) {m : Method} {names : List NameKey}
    {events : Option EventBinding}
    (hremoval : removal? m.deprecation = none)
    (h : (methodLine pad m names events scope.functionWord).outcome = .ok line) :
    ShowsKey scope pad (some m.name.display) line := by
  have hword : scope.functionWord ∈ scope.words := by cases scope <;> decide
  rw [methodLine, hremoval] at h
  obtain ⟨overloads, hoverloads, h⟩ := outcome_bind_eq_ok.1 h
  split at h
  · obtain ⟨parameters, -, h⟩ := outcome_bind_eq_ok.1 h
    obtain ⟨returns, -, h⟩ := outcome_bind_eq_ok.1 h
    obtain ⟨note, -, h⟩ := outcome_bind_eq_ok.1 h
    obtain rfl := Except.ok.inj h
    refine DeclaresKey.showsKey ⟨_, scope.functionWord, "(" ++
      (parameterText parameters ++ "): " ++ returns ++ ";" ++ note),
      notice_deprecatedMark pad m.deprecation, hword, ?_, ?_⟩
    · exact ⟨'(', by simp, (parameterText parameters ++ "): " ++ returns ++ ";" ++ note).toList,
        by simp⟩
    · simp only [String.append_assoc]
  next hsome =>
    have hne : overloads ≠ [] := fun hnil => hsome (List.isEmpty_iff.2 hnil)
    obtain ⟨binding, rfl⟩ := eq_eventOverloads hoverloads hne
    obtain rfl := Except.ok.inj h
    refine .declared (by simpa using hne) fun line hline => ?_
    obtain ⟨overload, hoverload, rfl⟩ := List.mem_map.1 hline
    obtain ⟨tail, htail, rfl⟩ := eventOverloads_eq hoverload
    exact ⟨"", scope.functionWord, tail, .none, hword, htail, by simp [String.append_assoc]⟩

theorem showsKey_property {p : Property} {optional : Bool}
    (h : (scope.propertyText pad r.record p optional).outcome = .ok line) :
    ShowsKey scope pad
      ((memberItem scope r .property ⟨p.name, (removal? p.deprecation).isSome⟩).key? scope
        .property) line := by
  have hwrites := (reading_writes scope pad r).property p optional line h
  cases hremoval : removal? p.deprecation with
  | some d =>
      rw [hremoval] at hwrites
      exact showsKey_of_writes hwrites fun name => by simp [memberItem]
  | none =>
      rw [hremoval] at hwrites
      cases hskips : scope.skips r.record p.name .property with
      | true => exact showsKey_of_writes hwrites fun name => by simp [memberItem, hskips]
      | false =>
          have hitem : memberItem scope r .property ⟨p.name, false⟩ = .member p.name false := by
            simp [memberItem, hskips]
          rw [Option.isSome_none, hitem]
          cases scope with
          | type => exact (declaresKey_classProperty hremoval hskips h).showsKey
          | block =>
              obtain ⟨hkept, hvalid⟩ := Bool.or_eq_false_iff.1 hskips
              have hname : hasIdentifier p.name = true := by simpa using hvalid
              exact (declaresKey_namespaceProperty hremoval hkept hname h).showsKey

theorem showsKey_method {m : Method} {events : Option EventBinding}
    (h : (scope.methodText pad r.record m events).outcome = .ok line) :
    ShowsKey scope pad
      ((memberItem scope r .method ⟨m.name, (removal? m.deprecation).isSome⟩).key? scope
        .method) line := by
  have hwrites := (reading_writes scope pad r).method m events line h
  cases hremoval : removal? m.deprecation with
  | some d =>
      rw [hremoval] at hwrites
      exact showsKey_of_writes hwrites fun name => by simp [memberItem]
  | none =>
      rw [hremoval] at hwrites
      cases hskips : scope.skips r.record m.name .method with
      | true => exact showsKey_of_writes hwrites fun name => by simp [memberItem, hskips]
      | false =>
          have hitem : memberItem scope r .method ⟨m.name, false⟩ = .member m.name false := by
            simp [memberItem, hskips]
          rw [Option.isSome_none, hitem]
          cases scope with
          | type => exact showsKey_methodLine .type hremoval h
          | block =>
              have hvalid : hasIdentifier m.name = true := by simpa [Scope.skips] using hskips
              rw [Scope.methodText, namespaceMethod, hremoval] at h
              obtain ⟨valid, hidentifier, h⟩ := outcome_bind_eq_ok.1 h
              obtain rfl : valid = true := (hasIdentifier_eq hidentifier).symm.trans hvalid
              exact showsKey_methodLine .block hremoval h

/-- Every text of a section shows its key. -/
theorem reading_showsKey (scope : Scope) (pad : String) (r : Resolution) :
    Reading scope pad r fun kind item => ShowsKey scope pad (item.key? scope kind) where
  heading _ text := .heading text
  blank _ := .blank
  excluded _ name := showsKey_of_writes (.excluded name) fun _ => BodyItem.noConfusion
  property _ _ _ h := showsKey_property h
  method _ _ _ h := showsKey_method h

/-! ### Sections with legal keys -/

/-- Whether the name of a member that is declared as what it is makes a legal key: one that is
quoted or looked at has to stand on one line, and that of a method in a type is written as it is. -/
def Scope.accepts (name : Json) : Scope → MemberKind → Bool
  | type, .method => type.isLegal name.display
  | _, _ => isOneLine name.display

/-- The names of a kind from which a section makes legal keys only. -/
structure LegalNames (scope : Scope) (r : Resolution) (kind : MemberKind) : Prop where
  excluded : membersOf r.record kind ≠ [] → ∀ name ∈ kind.excluded r.excluded,
    scope.isLegal name = true
  removed : ∀ m ∈ membersOf r.record kind, m.removed →
    ¬m.name.nameKey?.any (keysOf r.record kind.other).contains →
      scope.isLegal m.name.display = true
  live : ∀ m ∈ membersOf r.record kind, ¬m.removed → scope.skips r.record m.name kind = false →
    scope.accepts m.name kind = true

instance (scope : Scope) (r : Resolution) (kind : MemberKind) :
    Decidable (LegalNames scope r kind) :=
  decidable_of_iff
    ((membersOf r.record kind ≠ [] → ∀ name ∈ kind.excluded r.excluded,
        scope.isLegal name = true) ∧
      (∀ m ∈ membersOf r.record kind, m.removed →
        ¬m.name.nameKey?.any (keysOf r.record kind.other).contains →
          scope.isLegal m.name.display = true) ∧
      ∀ m ∈ membersOf r.record kind, ¬m.removed → scope.skips r.record m.name kind = false →
        scope.accepts m.name kind = true)
    ⟨fun ⟨excluded, removed, live⟩ => ⟨excluded, removed, live⟩,
      fun ⟨excluded, removed, live⟩ => ⟨excluded, removed, live⟩⟩

/-- Every key that an item of a section declares is legal. -/
def LegalKeys (scope : Scope) (r : Resolution) (kind : MemberKind) : Prop :=
  ∀ item ∈ sectionItems scope r kind, ∀ key ∈ item.key? scope kind, scope.isLegal key = true

theorem isLegal_keyOf {name : Json} (h : scope.skips r.record name kind = false) :
    scope.isLegal (scope.keyOf name kind) = scope.accepts name kind := by
  cases scope with
  | type =>
      cases kind with
      | property => exact isLegal_memberKeyText name.display
      | method => rfl
  | block =>
      have hvalid : hasIdentifier name = true := by
        cases kind with
        | property => simpa using (Bool.or_eq_false_iff.1 h).2
        | method => simpa [Scope.skips] using h
      exact isLegal_of_hasIdentifier hvalid

theorem mem_key?_memberItem {m : Member} :
    key ∈ (memberItem scope r kind m).key? scope kind ↔
      m.removed ∧ ¬m.name.nameKey?.any (keysOf r.record kind.other).contains ∧
          key = m.name.display ∨
        ¬m.removed ∧ scope.skips r.record m.name kind = false ∧ key = scope.keyOf m.name kind := by
  unfold memberItem
  cases hremoved : m.removed with
  | true =>
      rw [if_pos rfl, BodyItem.key?]
      split
      next hshared => simp [hshared]
      next hown => simpa [hown] using eq_comm
  | false =>
      rw [if_neg Bool.false_ne_true, BodyItem.key?]
      split
      next hskipped => simp [hskipped]
      next hkept => simpa [hkept] using eq_comm

theorem mem_key?_excludedItems {names : List String} :
    (∃ item ∈ excludedItems names, key ∈ item.key? scope kind) ↔ key ∈ names := by
  unfold excludedItems
  split
  next hnone => simp [List.isEmpty_iff.1 hnone]
  · simp [BodyItem.key?, Text.mem_sortDistinct, Json.display_str]

/-- The keys of a section: excluded names if members are left, and those of the members. -/
theorem mem_key?_sectionItems :
    (∃ item ∈ sectionItems scope r kind, key ∈ item.key? scope kind) ↔
      membersOf r.record kind ≠ [] ∧ key ∈ kind.excluded r.excluded ∨
        ∃ m ∈ membersOf r.record kind, key ∈ (memberItem scope r kind m).key? scope kind := by
  have hheadings : ∀ item ∈ scope.headings, key ∉ item.key? scope kind := by
    cases scope <;> simp [Scope.headings, BodyItem.key?]
  unfold sectionItems
  split
  next hnone => simp [List.isEmpty_iff.1 hnone]
  next hsome =>
    have hne : membersOf r.record kind ≠ [] := fun hnil => hsome (List.isEmpty_iff.2 hnil)
    simp only [List.mem_append, or_and_right, exists_or, mem_key?_excludedItems, List.mem_map,
      exists_exists_and_eq_and, hne, ne_eq, not_false_eq_true, true_and]
    refine or_congr_left (or_iff_right ?_)
    rintro ⟨item, hitem, hkey⟩
    exact hheadings item hitem hkey

/-- The keys of a section are legal if and only if its names are. -/
theorem legalKeys_iff : LegalKeys scope r kind ↔ LegalNames scope r kind := by
  have hkeys : LegalKeys scope r kind ↔ ∀ key,
      (∃ item ∈ sectionItems scope r kind, key ∈ item.key? scope kind) →
        scope.isLegal key = true :=
    ⟨fun h key ⟨item, hitem, hkey⟩ => h item hitem key hkey,
      fun h item hitem key hkey => h key ⟨item, hitem, hkey⟩⟩
  simp only [hkeys, mem_key?_sectionItems, mem_key?_memberItem]
  constructor
  · intro h
    refine ⟨fun hne name hname => h name (.inl ⟨hne, hname⟩), fun m hm hremoved hown => ?_,
      fun m hm hlive hkept => ?_⟩
    · exact h _ (.inr ⟨m, hm, .inl ⟨hremoved, hown, rfl⟩⟩)
    · rw [← isLegal_keyOf hkept]
      exact h _ (.inr ⟨m, hm, .inr ⟨hlive, hkept, rfl⟩⟩)
  · rintro h key (⟨hne, hname⟩ | ⟨m, hm, ⟨hremoved, hown, rfl⟩ | ⟨hlive, hkept, rfl⟩⟩)
    · exact h.excluded hne key hname
    · exact h.removed m hm hremoved hown
    · exact (isLegal_keyOf hkept).trans (h.live m hm hlive hkept)

/-! ### The global scope -/

/-- The key that a member of the root declares, unless it is left out. -/
def Member.globalKeys (m : Member) : List String := if m.removed then [] else [m.name.display]

/-- The keys that the members of the root declare. -/
def globalKeys (record : TypeRecord) : List String :=
  (membersOf record .property ++ membersOf record .method).flatMap Member.globalKeys

theorem declares_globalProperty {p : Property} {lines : List String}
    (h : (globalProperty p).outcome = .ok lines) :
    List.Forall₂ (DeclaresKey .block "declare ")
      (Member.globalKeys ⟨p.name, (removal? p.deprecation).isSome⟩) lines := by
  unfold globalProperty at h
  cases hremoval : removal? p.deprecation with
  | some d =>
      rw [hremoval] at h
      obtain rfl := Except.ok.inj h
      exact .nil
  | none =>
      rw [hremoval] at h
      obtain ⟨type, -, h⟩ := outcome_bind_eq_ok.1 h
      obtain rfl := Except.ok.inj h
      refine .cons ⟨"", variableWord p ++ " ", ": " ++ (type ++ ";"), .none, ?_, ?_, ?_⟩ .nil
      · rw [variableWord]
        cases p.readOnly <;> decide
      · exact endsKey_colon _
      · simp only [String.append_assoc, String.empty_append]

theorem declares_globalMethod {m : Method} {lines : List String}
    (h : (globalMethod m).outcome = .ok lines) :
    List.Forall₂ (DeclaresKey .block "declare ")
      (Member.globalKeys ⟨m.name, (removal? m.deprecation).isSome⟩) lines := by
  unfold globalMethod at h
  cases hremoval : removal? m.deprecation with
  | some d =>
      rw [hremoval] at h
      obtain rfl := Except.ok.inj h
      exact .nil
  | none =>
      rw [hremoval] at h
      obtain ⟨parameters, -, h⟩ := outcome_bind_eq_ok.1 h
      obtain ⟨returns, -, h⟩ := outcome_bind_eq_ok.1 h
      obtain rfl := Except.ok.inj h
      refine .cons ⟨"", "function ", "(" ++ (parameterText parameters ++ "): " ++ returns ++ ";"),
        .none, by decide, ?_, ?_⟩ .nil
      · exact ⟨'(', by simp, (parameterText parameters ++ "): " ++ returns ++ ";").toList, by simp⟩
      · have hword : "declare function " = "declare " ++ "function " := rfl
        simp only [hword, String.append_assoc, String.empty_append]

/-- The members of the root are declared line by line, each under its name. -/
theorem declares_globalMembers {ctx : Context} {root : Node} {text : String}
    (h : (globalMembers ctx root).outcome = .ok text) :
    ∃ r lines, root.resolution = some r ∧ text = linesText lines ∧
      List.Forall₂ (DeclaresKey .block "declare ") (globalKeys r.record) lines := by
  obtain ⟨r, hr, h⟩ := outcome_bind_eq_ok.1 h
  obtain ⟨properties, hproperties, h⟩ := outcome_bind_eq_ok.1 h
  obtain ⟨methods, hmethods, h⟩ := outcome_bind_eq_ok.1 h
  obtain rfl := Except.ok.inj h
  refine ⟨r, _, resolution_of_resolved hr, rfl, ?_⟩
  rw [globalKeys, List.flatMap_append, List.flatMap_def, List.flatMap_def, membersOf, membersOf,
    List.map_map, List.map_map]
  refine List.rel_append (List.rel_flatten ?_) (List.rel_flatten ?_)
  · exact List.forall₂_map_left_iff.2
      ((outcome_each_eq_ok.1 hproperties).imp fun _ _ => declares_globalProperty)
  · exact List.forall₂_map_left_iff.2
      ((outcome_each_eq_ok.1 hmethods).imp fun _ _ => declares_globalMethod)

theorem mem_globalKeys {record : TypeRecord} :
    key ∈ globalKeys record ↔ ∃ kind, ∃ m ∈ membersOf record kind, ¬m.removed ∧
      key = m.name.display := by
  have hmember (m : Member) : key ∈ m.globalKeys ↔ ¬m.removed ∧ key = m.name.display := by
    unfold Member.globalKeys
    split <;> simp_all
  simp only [globalKeys, List.mem_flatMap, List.mem_append, hmember]
  constructor
  · rintro ⟨m, hm | hm, hlive⟩
    · exact ⟨.property, m, hm, hlive⟩
    · exact ⟨.method, m, hm, hlive⟩
  · rintro ⟨kind, m, hm, hlive⟩
    cases kind with
    | property => exact ⟨m, .inl hm, hlive⟩
    | method => exact ⟨m, .inr hm, hlive⟩

/-! ### Trees -/

theorem Shows.hasSections {options : Options} {t : Tree} {n : Node} {text : String}
    (h : Shows options t n text) : ∃ r others, n.resolution = some r ∧
      HasSections (contextOf options t) n r (scopeIn t n r)
        (fun kind item => ShowsKey (scopeIn t n r) (indentation n.path.depth ++ "\t")
          (item.key? (scopeIn t n r) kind)) text others := by
  have hnode : (t.branch n).node = n := by rw [Tree.branch_eq, Branch.node]
  have hreading (scope : Scope) (r : Resolution) :=
    reading_showsKey scope (indentation (t.branch n).node.path.depth ++ "\t") r
  obtain ⟨r, hr, others, hsections⟩ :=
    branchText_hasSections hreading (hnode.symm ▸ h.declarable) h.full h.text
  rw [hnode] at hr hsections
  exact ⟨r, others, hr, hsections⟩

/-- Where a node is declared, each text in its sections shows its key, and the keys of a kind that
are not commented out are legal if and only if its names make legal keys: excluded names, and those
of removed members and of the methods of a type, have to be legal keys themselves, and the names of
all other members that are declared have to stand on one line. What declares the members of the
root has their names for keys, so that these have to be legal themselves. -/
theorem keys_legal_iff (options : Options) (t : Tree) :
    (∀ n text, Shows options t n text → ∃ r others, n.resolution = some r ∧
      HasSections (contextOf options t) n r (scopeIn t n r)
        (fun kind item => ShowsKey (scopeIn t n r) (indentation n.path.depth ++ "\t")
          (item.key? (scopeIn t n r) kind)) text others ∧
      ∀ kind, LegalKeys (scopeIn t n r) r kind ↔ LegalNames (scopeIn t n r) r kind) ∧
    ∀ root text, (globalMembers (contextOf options t) root).outcome = .ok text →
      ∃ r lines, root.resolution = some r ∧ text = linesText lines ∧
        List.Forall₂ (DeclaresKey .block "declare ") (globalKeys r.record) lines ∧
        ((∀ key ∈ globalKeys r.record, Scope.block.isLegal key = true) ↔
          ∀ kind, ∀ m ∈ membersOf r.record kind, ¬m.removed →
            Scope.block.isLegal m.name.display = true) := by
  constructor
  · intro n text hshows
    obtain ⟨r, others, hr, hsections⟩ := hshows.hasSections
    exact ⟨r, others, hr, hsections, fun _ => legalKeys_iff⟩
  · intro root text htext
    obtain ⟨r, lines, hr, hlines, hdeclares⟩ := declares_globalMembers htext
    refine ⟨r, lines, hr, hlines, hdeclares, fun h kind m hm hlive => ?_, fun h key hkey => ?_⟩
    · exact h _ (mem_globalKeys.2 ⟨kind, m, hm, hlive, rfl⟩)
    · obtain ⟨kind, m, hm, hlive, rfl⟩ := mem_globalKeys.1 hkey
      exact h kind m hm hlive

/-- A property and a method whose names are no identifiers, and a method of the root under a
reserved word. -/
def dashRecords : Fields :=
  [("Global", .obj [("name", .str "Global"), ("methods", .arr [.obj [("name", .str "delete")]])]),
    ("A", .obj [("name", .str "A"),
      ("properties", .arr [.obj [("name", .str "c-d"), ("type", .str "String")]]),
      ("methods", .arr [.obj [("name", .str "a-b")]])])]

/-- The tree of `dashRecords`. -/
def dashTree : Tree :=
  ⟨"Global", "",
    [⟨[], [("name", .str "Global"), ("methods", .arr [.obj [("name", .str "delete")]])], false,
        none⟩,
      ⟨["A"], [("name", .str "A"),
        ("properties", .arr [.obj [("name", .str "c-d"), ("type", .str "String")]]),
        ("methods", .arr [.obj [("name", .str "a-b")]])], false, none⟩],
    []⟩

theorem keys_legal_iff_dashRecords :
    (Tree.build (.obj dashRecords) "Global").outcome = .ok dashTree ∧
      (∃ r others, ((performAll dashTree [.all]).nodeAt ["A"]).resolution = some r ∧
        HasSections (contextOf .standard (performAll dashTree [.all]))
          ((performAll dashTree [.all]).nodeAt ["A"]) r .type
          (fun kind item => ShowsKey .type "\t" (item.key? .type kind))
          ("declare class A \x7b\n\tprotected constructor();\n\t// A properties\n" ++
            "\t'c-d': string;\n\t// A methods\n\ta-b(): void;\n\x7d\n") others ∧
        LegalKeys .type r .property ∧ ¬LegalKeys .type r .method) ∧
      ∃ r lines, ((performAll dashTree [.all]).nodeAt []).resolution = some r ∧
        "declare function delete(): void;\n" = linesText lines ∧
        List.Forall₂ (DeclaresKey .block "declare ") (globalKeys r.record) lines ∧
        ¬∀ key ∈ globalKeys r.record, Scope.block.isLegal key = true := by
  have hresolved := show performAll dashTree [.all] = _ by cbv
  have hshows : Shows .standard (performAll dashTree [.all])
      ((performAll dashTree [.all]).nodeAt ["A"])
      ("declare class A \x7b\n\tprotected constructor();\n\t// A properties\n" ++
        "\t'c-d': string;\n\t// A methods\n\ta-b(): void;\n\x7d\n") := by
    rw [hresolved]
    exact ⟨by decide +kernel, by decide +kernel, by decide +kernel⟩
  have hglobal : (globalMembers (contextOf .standard (performAll dashTree [.all]))
      ((performAll dashTree [.all]).nodeAt [])).outcome =
        .ok "declare function delete(): void;\n" := by
    rw [hresolved]
    decide +kernel
  obtain ⟨htypes, hroot⟩ := keys_legal_iff .standard (performAll dashTree [.all])
  obtain ⟨r, others, hr, hsections, hlegal⟩ := htypes _ _ hshows
  obtain ⟨root, lines, hrootRecord, hlines, hdeclares, hkeys⟩ := hroot _ _ hglobal
  have hnames : ((performAll dashTree [.all]).nodeAt ["A"]).resolution.map (fun r =>
      (scopeIn (performAll dashTree [.all]) ((performAll dashTree [.all]).nodeAt ["A"]) r,
        decide (LegalNames .type r .property), decide (LegalNames .type r .method))) =
      some (.type, true, false) := by
    rw [hresolved]
    decide +kernel
  have hreserved : ((performAll dashTree [.all]).nodeAt []).resolution.map (fun r =>
      (membersOf r.record .method).map fun m => (m.removed, Scope.block.isLegal m.name.display)) =
      some [(false, false)] := by
    rw [hresolved]
    decide +kernel
  rw [hr, Option.map_some, Option.some_inj, Prod.mk.injEq, Prod.mk.injEq, decide_eq_true_eq,
    decide_eq_false_iff_not] at hnames
  obtain ⟨hscope, hproperties, hmethods⟩ := hnames
  have hpad : indentation ((performAll dashTree [.all]).nodeAt ["A"]).path.depth = "" := by
    rw [hresolved]
    decide +kernel
  rw [hpad, hscope] at hsections
  rw [hscope] at hlegal
  refine ⟨by rfl, ⟨r, others, hr, hsections, (hlegal .property).2 hproperties, fun h =>
    hmethods ((hlegal .method).1 h)⟩, root, lines, hrootRecord, hlines, hdeclares, fun h => ?_⟩
  rw [hrootRecord, Option.map_some, Option.some_inj] at hreserved
  obtain ⟨m, hmethod, hm⟩ := List.map_eq_singleton_iff.1 hreserved
  obtain ⟨hlive, hillegal⟩ := Prod.mk.inj hm
  have hlegal := hkeys.1 h .method m (hmethod ▸ List.mem_singleton.2 rfl) (by simp [hlive])
  exact absurd (hillegal.symm.trans hlegal) Bool.false_ne_true

/-- A method whose name is no identifier is declared under it. -/
theorem key_not_legal_dashRecords :
    (Tree.build (.obj dashRecords) "Global").outcome = .ok dashTree ∧
      Shows .standard (performAll dashTree [.all]) ((performAll dashTree [.all]).nodeAt ["A"])
        ("declare class A \x7b\n\tprotected constructor();\n\t// A properties\n" ++
          "\t'c-d': string;\n\t// A methods\n" ++ "\ta-b(): void;\n" ++ "\x7d\n") ∧
      DeclaresKey .type "\t" "a-b" "\ta-b(): void;" ∧ Scope.type.isLegal "a-b" = false := by
  have hresolved := show performAll dashTree [.all] = _ by cbv
  refine ⟨by rfl, ?_, ⟨"", "", "(): void;", .none, by decide, ?_, by decide⟩, by decide⟩
  · rw [hresolved]
    exact ⟨by decide +kernel, by decide +kernel, by decide +kernel⟩
  · exact ⟨'(', by simp, "): void;".toList, by simp⟩

end Declaration

end ApiTypings
