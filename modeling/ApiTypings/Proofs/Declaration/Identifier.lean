import ApiTypings.Proofs.Declaration.Exclusion

/-!
Names that a class or an interface declares.

A removed member is commented out if a member of the other kind has its name, and no member is left
under a name that is excluded for its own kind. Nothing of the sort is done for the names that are
excluded: such a name is declared never beside whatever the other kind declares under it, be it a
member or the same name, excluded there too. So no name is declared twice if and only if the
excluded names of each kind are none that the section of the other kind declares.
-/

namespace ApiTypings

open Exclusion

namespace Declaration

variable {t : Tree} {p : Path} {r : Resolution} {scope : Scope} {kind : MemberKind}
  {name : String} {key : NameKey} {m : Member}

/-- The name that an item declares, unless it is commented out. -/
def BodyItem.declared? : BodyItem → Option NameKey
  | .layout => none
  | .never name commented => if commented then none else name.nameKey?
  | .member name commented => if commented then none else name.nameKey?

/-- The names that the section of a kind declares. -/
def declaredIn (scope : Scope) (r : Resolution) (kind : MemberKind) : List NameKey :=
  (sectionItems scope r kind).filterMap BodyItem.declared?

/-! ### One member -/

theorem declared?_memberItem (h : (memberItem scope r kind m).declared? = some key) :
    m.name.nameKey? = some key ∧ (m.removed → key ∉ keysOf r.record kind.other) := by
  unfold memberItem at h
  split at h
  · rw [BodyItem.declared?] at h
    split at h
    · cases h
    next hothers => exact ⟨h, fun _ hkey => hothers (by simpa [h] using hkey)⟩
  next hlive =>
    rw [BodyItem.declared?] at h
    split at h
    · cases h
    · exact ⟨h, fun hremoved => absurd hremoved hlive⟩

/-- A member that no member of the other kind shares the name of is declared, unless it is
skipped. -/
theorem declared?_memberItem_iff (hname : m.name.nameKey? = some key)
    (hothers : key ∉ keysOf r.record kind.other) :
    (memberItem scope r kind m).declared? = some key ↔
      (m.removed ∨ scope.skips r.record m.name kind = false) := by
  unfold memberItem
  split
  next hremoved => simp [BodyItem.declared?, hname, hothers, hremoved]
  next hlive => simp [BodyItem.declared?, hname, hlive]

/-! ### One section -/

theorem filterMap_excludedItems (names : List String) :
    (excludedItems names).filterMap BodyItem.declared? =
      (Text.sortDistinct names).map .text := by
  unfold excludedItems
  split
  next hnone => simp [List.isEmpty_iff.1 hnone, Text.sortDistinct]
  · simp [List.filterMap_append, List.filterMap_map, Function.comp_def, BodyItem.declared?,
      Json.nameKey?]

theorem declaredIn_eq (hne : membersOf r.record kind ≠ []) :
    declaredIn scope r kind =
      (Text.sortDistinct (kind.excluded r.excluded)).map .text ++
        (membersOf r.record kind).filterMap fun m => (memberItem scope r kind m).declared? := by
  have hheadings : scope.headings.filterMap BodyItem.declared? = [] := by
    cases scope <;> rfl
  have hfull : ¬(membersOf r.record kind).isEmpty := fun hnil => hne (List.isEmpty_iff.1 hnil)
  rw [declaredIn, sectionItems, if_neg hfull, List.filterMap_append, List.filterMap_append,
    hheadings, filterMap_excludedItems, List.filterMap_map, List.nil_append]
  rfl

theorem mem_declaredIn_iff :
    key ∈ declaredIn scope r kind ↔ membersOf r.record kind ≠ [] ∧
      ((∃ name ∈ kind.excluded r.excluded, key = .text name) ∨
        ∃ m ∈ membersOf r.record kind, (memberItem scope r kind m).declared? = some key) := by
  by_cases hnone : membersOf r.record kind = []
  · simp [declaredIn, sectionItems, hnone]
  · rw [declaredIn_eq hnone]
    simp [hnone, eq_comm]

theorem nodup_declaredIn (h : t.Prescribes p r)
    (hnames : ((membersOf r.record kind).map (·.name.nameKey?)).Nodup) :
    (declaredIn scope r kind).Nodup := by
  by_cases hnone : membersOf r.record kind = []
  · simp [declaredIn, sectionItems, hnone]
  rw [declaredIn_eq hnone, List.nodup_append]
  refine ⟨(Text.nodup_sortDistinct _).map fun _ _ => NameKey.text.inj, ?_, ?_⟩
  · refine List.pairwise_filterMap.2 ((List.pairwise_map.1 hnames).imp ?_)
    intro m other hdifferent key hkey _ hother rfl
    exact hdifferent ((declared?_memberItem hkey).1.trans (declared?_memberItem hother).1.symm)
  · intro key hkey _ hdeclared rfl
    obtain ⟨name, hname, rfl⟩ := List.mem_map.1 hkey
    obtain ⟨m, hm, hdeclared⟩ := List.mem_filterMap.1 hdeclared
    have hstr := nameKey?_eq_text_iff.1 (declared?_memberItem hdeclared).1
    exact name_ne_of_mem_excluded h (Text.mem_sortDistinct.1 hname) hm hstr

/-! ### Both sections -/

/-- No name is declared by a live property and by a live method. -/
def LiveApart (record : TypeRecord) : Prop :=
  ∀ p ∈ membersOf record .property, ∀ m ∈ membersOf record .method, ¬p.removed → ¬m.removed →
    p.name.nameKey? ≠ m.name.nameKey?

/-- The excluded names of each kind are none that the section of the other kind declares. -/
def ExcludedApart (scope : Scope) (r : Resolution) : Prop :=
  ∀ kind : MemberKind, ∀ name ∈ kind.excluded r.excluded, membersOf r.record kind ≠ [] →
    (membersOf r.record kind.other ≠ [] → name ∉ kind.other.excluded r.excluded) ∧
      ∀ m ∈ membersOf r.record kind.other, m.name = .str name →
        ¬m.removed ∧ scope.skips r.record m.name kind.other = true

theorem mem_keysOf {record : TypeRecord} (hm : m ∈ membersOf record kind)
    (hkey : m.name.nameKey? = some key) : key ∈ keysOf record kind :=
  List.mem_filterMap.2 ⟨m, hm, hkey⟩

/-- Members of the two kinds that are both declared have different names: if one of them was
removed, it would be commented out. -/
theorem declared_apart (hlive : LiveApart r.record) {q : Member}
    (hq : q ∈ membersOf r.record .property) (hm : m ∈ membersOf r.record .method)
    (hproperty : (memberItem scope r .property q).declared? = some key) :
    (memberItem scope r .method m).declared? ≠ some key := by
  intro hmethod
  obtain ⟨hqkey, hqothers⟩ := declared?_memberItem hproperty
  obtain ⟨hmkey, hmothers⟩ := declared?_memberItem hmethod
  refine hlive q hq m hm ?_ ?_ (hqkey.trans hmkey.symm)
  · exact fun hremoved => hqothers hremoved (mem_keysOf hm hmkey)
  · exact fun hremoved => hmothers hremoved (mem_keysOf hq hqkey)

/-- What is declared for the other kind under a name that is excluded. -/
theorem excluded_mem_other_iff (h : t.Prescribes p r) (hname : name ∈ kind.excluded r.excluded) :
    .text name ∉ declaredIn scope r kind.other ↔
      (membersOf r.record kind.other ≠ [] → name ∉ kind.other.excluded r.excluded) ∧
        ∀ m ∈ membersOf r.record kind.other, m.name = .str name →
          ¬m.removed ∧ scope.skips r.record m.name kind.other = true := by
  have hothers : .text name ∉ keysOf r.record kind.other.other := by
    rw [MemberKind.other_other]
    exact not_mem_keysOf_of_mem_excluded h hname
  have hmember (m : Member) : (memberItem scope r kind.other m).declared? = some (.text name) ↔
      m.name = .str name ∧ (m.removed ∨ scope.skips r.record m.name kind.other = false) := by
    constructor
    · intro hdeclared
      have hkey := (declared?_memberItem hdeclared).1
      exact ⟨nameKey?_eq_text_iff.1 hkey, (declared?_memberItem_iff hkey hothers).1 hdeclared⟩
    · rintro ⟨hstr, hshown⟩
      exact (declared?_memberItem_iff (nameKey?_eq_text_iff.2 hstr) hothers).2 hshown
  rw [mem_declaredIn_iff]
  constructor
  · intro hnot
    refine ⟨fun hne hexcluded => hnot ⟨hne, .inl ⟨name, hexcluded, rfl⟩⟩, fun m hm hstr => ?_⟩
    have hhidden : ¬(m.removed ∨ scope.skips r.record m.name kind.other = false) := fun hshown =>
      hnot ⟨List.ne_nil_of_mem hm, .inr ⟨m, hm, (hmember m).2 ⟨hstr, hshown⟩⟩⟩
    simpa using hhidden
  · rintro ⟨hexcluded, hmembers⟩ ⟨hne, ⟨_, hother, htext⟩ | ⟨m, hm, hdeclared⟩⟩
    · obtain rfl := NameKey.text.inj htext
      exact hexcluded hne hother
    · obtain ⟨hstr, hshown⟩ := (hmember m).1 hdeclared
      obtain ⟨hremoved, hskipped⟩ := hmembers m hm hstr
      simp [hremoved, hskipped] at hshown

theorem nodup_bodyItems_iff (h : t.Prescribes p r)
    (hnames : ∀ kind, ((membersOf r.record kind).map (·.name.nameKey?)).Nodup)
    (hlive : LiveApart r.record) :
    ((bodyItems scope r).filterMap BodyItem.declared?).Nodup ↔ ExcludedApart scope r := by
  have hparts : (bodyItems scope r).filterMap BodyItem.declared? =
      declaredIn scope r .property ++ declaredIn scope r .method := by
    rw [bodyItems, List.filterMap_append, declaredIn, declaredIn]
  have happart : ExcludedApart scope r ↔ ∀ kind : MemberKind, ∀ name ∈ kind.excluded r.excluded,
      membersOf r.record kind ≠ [] → .text name ∉ declaredIn scope r kind.other :=
    forall_congr' fun kind => forall₂_congr fun name hname => by
      rw [excluded_mem_other_iff h hname]
  rw [hparts, List.nodup_append, happart]
  constructor
  · rintro ⟨-, -, hdisjoint⟩ kind name hname hne hother
    have hown : .text name ∈ declaredIn scope r kind :=
      mem_declaredIn_iff.2 ⟨hne, .inl ⟨name, hname, rfl⟩⟩
    cases kind with
    | property => exact hdisjoint _ hown _ hother rfl
    | method => exact hdisjoint _ hother _ hown rfl
  · intro hexcluded
    refine ⟨nodup_declaredIn h (hnames _), nodup_declaredIn h (hnames _), ?_⟩
    rintro key hproperty _ hmethod rfl
    obtain ⟨hne, ⟨name, hname, rfl⟩ | ⟨q, hq, hqdeclared⟩⟩ := mem_declaredIn_iff.1 hproperty
    · exact hexcluded .property name hname hne hmethod
    obtain ⟨hne', ⟨name, hname, rfl⟩ | ⟨m, hm, hmdeclared⟩⟩ := mem_declaredIn_iff.1 hmethod
    · exact hexcluded .method name hname hne' hproperty
    · exact declared_apart hlive hq hm hqdeclared hmdeclared

/-! ### Classes and interfaces -/

/-- Whatever requests have resolved the nodes of a built tree: if the names of its properties
differ, and those of its methods, and no live property has the name of a live method, then the body
of a class or an interface declares no name twice if and only if no excluded name is declared for
the other kind. -/
theorem classText_declares_once_iff {apis : Fields} {rootName : String}
    (hbuild : (Tree.build (.obj apis) rootName).outcome = .ok t) (requests : List Request)
    (options : Options) {n : Node} (hn : n ∈ (performAll t requests).nodes)
    (hr : n.resolution = some r) {text : String}
    (htext : (classText (contextOf options (performAll t requests)) n r).outcome = .ok text)
    (hnames : ∀ kind, ((membersOf r.record kind).map (·.name.nameKey?)).Nodup)
    (hlive : LiveApart r.record) :
    DeclaresMembers (contextOf options (performAll t requests)) n r .type text
        (constructorLines (indentation n.path.depth ++ "\t")
          ((contextOf options (performAll t requests)).declarationKind n r.record) r.record) ∧
      (((bodyItems .type r).filterMap BodyItem.declared?).Nodup ↔ ExcludedApart .type r) := by
  obtain ⟨hmemo, -⟩ := performAll_spec (Tree.memo_build hbuild) requests
  rw [← Tree.nodeAt_path hmemo.proper.nodup hn] at hr
  have hprescribes := (hmemo.settled n.path r hr).prescribes
  exact ⟨classText_declaresMembers htext, nodup_bodyItems_iff hprescribes hnames hlive⟩

/-- A type that excludes a method and was left by a method that has the name of a property. -/
def tidyRecords : Fields :=
  [("A", .obj [("name", .str "A"), ("excludes", .obj [("methods", .arr [.str "x"])]),
    ("properties", .arr [.obj [("name", .str "p"), ("type", .str "String")]]),
    ("methods", .arr [.obj [("name", .str "x")], .obj [("name", .str "m")],
      .obj [("name", .str "p"), ("deprecated", .obj [("removed", .str "2")])]])])]

/-- The tree of `tidyRecords`. -/
def tidyTree : Tree :=
  ⟨"Global", "",
    [Node.blank [] false,
      ⟨["A"], [("name", .str "A"), ("excludes", .obj [("methods", .arr [.str "x"])]),
        ("properties", .arr [.obj [("name", .str "p"), ("type", .str "String")]]),
        ("methods", .arr [.obj [("name", .str "x")], .obj [("name", .str "m")],
          .obj [("name", .str "p"), ("deprecated", .obj [("removed", .str "2")])]])], false, none⟩],
    []⟩

theorem classText_declares_once_iff_tidyRecords :
    (Tree.build (.obj tidyRecords) "Global").outcome = .ok tidyTree ∧
      ∃ n ∈ (performAll tidyTree [.node 1]).nodes, ∃ r, n.resolution = some r ∧
        (classText (contextOf .standard (performAll tidyTree [.node 1])) n r).outcome =
          .ok ("declare class A \x7b\n\tprotected constructor();\n\t// A properties\n" ++
            "\tp: string;\n\t// A methods\n\tx: never;\n\n\tm(): void;\n" ++
            "\t/*\n\t * REMOVED in 2\n\t * \n\t */\n\t// p: never;\n\x7d\n") ∧
        (∀ kind, ((membersOf r.record kind).map (·.name.nameKey?)).Nodup) ∧
        LiveApart r.record ∧ ((bodyItems .type r).filterMap BodyItem.declared?).Nodup := by
  have hbuild : (Tree.build (.obj tidyRecords) "Global").outcome = .ok tidyTree := by rfl
  have hresolved := show performAll tidyTree [.node 1] = _ by cbv
  have hn : (performAll tidyTree [.node 1]).nodeAt ["A"] ∈
      (performAll tidyTree [.node 1]).nodes := by
    refine Tree.nodeAt_mem_nodes ?_
    rw [hresolved]
    decide +kernel
  obtain ⟨r, hr, hproperties, hmethods, hexcluded, htext⟩ : ∃ r,
      ((performAll tidyTree [.node 1]).nodeAt ["A"]).resolution = some r ∧
      membersOf r.record .property = [⟨.str "p", false⟩] ∧
      membersOf r.record .method = [⟨.str "m", false⟩, ⟨.str "p", true⟩] ∧
      r.excluded = ⟨["x"], []⟩ ∧
      (classText (contextOf .standard (performAll tidyTree [.node 1]))
          ((performAll tidyTree [.node 1]).nodeAt ["A"]) r).outcome =
        .ok ("declare class A \x7b\n\tprotected constructor();\n\t// A properties\n" ++
          "\tp: string;\n\t// A methods\n\tx: never;\n\n\tm(): void;\n" ++
          "\t/*\n\t * REMOVED in 2\n\t * \n\t */\n\t// p: never;\n\x7d\n") := by
    rw [hresolved]
    exact ⟨_, rfl, rfl, rfl, rfl, by decide +kernel⟩
  have hnames : ∀ kind, ((membersOf r.record kind).map (·.name.nameKey?)).Nodup := by
    intro kind
    cases kind with
    | property => simp [hproperties]
    | method => simp [hmethods, Json.nameKey?]
  have hlive : LiveApart r.record := by
    simp [LiveApart, hproperties, hmethods, Json.nameKey?]
  have happart : ExcludedApart .type r := by
    intro kind name hname
    cases kind with
    | property => simp [MemberKind.excluded, hexcluded] at hname
    | method =>
      simp_all [MemberKind.excluded, MemberKind.other]
  have hiff := (classText_declares_once_iff hbuild [.node 1] .standard hn hr htext hnames hlive).2
  exact ⟨hbuild, _, hn, r, hr, htext, hnames, hlive, hiff.2 happart⟩

/-- A type with a property of the name of a method that it excludes. -/
def clashRecords : Fields :=
  [("A", .obj [("name", .str "A"), ("excludes", .obj [("methods", .arr [.str "x"])]),
    ("methods", .arr [.obj [("name", .str "m")]]),
    ("properties", .arr [.obj [("name", .str "x"), ("type", .str "String")]])])]

/-- The tree of `clashRecords`. -/
def clashTree : Tree :=
  ⟨"Global", "",
    [Node.blank [] false,
      ⟨["A"], [("name", .str "A"), ("excludes", .obj [("methods", .arr [.str "x"])]),
        ("methods", .arr [.obj [("name", .str "m")]]),
        ("properties", .arr [.obj [("name", .str "x"), ("type", .str "String")]])], false, none⟩],
    []⟩

theorem name_declared_twice_clashRecords :
    (Tree.build (.obj clashRecords) "Global").outcome = .ok clashTree ∧
      ∃ n ∈ (performAll clashTree [.node 1]).nodes, ∃ r, n.resolution = some r ∧
        (∀ kind, ((membersOf r.record kind).map (·.name.nameKey?)).Nodup) ∧
        LiveApart r.record ∧
        (classText (contextOf .standard (performAll clashTree [.node 1])) n r).outcome =
          .ok ("declare class A \x7b\n\tprotected constructor();\n\t// A properties\n" ++
            "\tx: string;\n\t// A methods\n\tx: never;\n\n\tm(): void;\n\x7d\n") ∧
        ¬((bodyItems .type r).filterMap BodyItem.declared?).Nodup := by
  have hresolved := show performAll clashTree [.node 1] = _ by cbv
  have hn : (performAll clashTree [.node 1]).nodeAt ["A"] ∈
      (performAll clashTree [.node 1]).nodes := by
    refine Tree.nodeAt_mem_nodes ?_
    rw [hresolved]
    decide +kernel
  obtain ⟨r, hr, hproperties, hmethods, htext, hdeclared⟩ : ∃ r,
      ((performAll clashTree [.node 1]).nodeAt ["A"]).resolution = some r ∧
      membersOf r.record .property = [⟨.str "x", false⟩] ∧
      membersOf r.record .method = [⟨.str "m", false⟩] ∧
      (classText (contextOf .standard (performAll clashTree [.node 1]))
          ((performAll clashTree [.node 1]).nodeAt ["A"]) r).outcome =
        .ok ("declare class A \x7b\n\tprotected constructor();\n\t// A properties\n" ++
          "\tx: string;\n\t// A methods\n\tx: never;\n\n\tm(): void;\n\x7d\n") ∧
      (bodyItems .type r).filterMap BodyItem.declared? = [.text "x", .text "x", .text "m"] := by
    rw [hresolved]
    exact ⟨_, rfl, rfl, rfl, by decide +kernel, by decide +kernel⟩
  refine ⟨by rfl, _, hn, r, hr, fun kind => ?_, ?_, htext, ?_⟩
  · cases kind with
    | property => simp [hproperties]
    | method => simp [hmethods]
  · simp [LiveApart, hproperties, hmethods, Json.nameKey?]
  · rw [hdeclared]
    decide

end Declaration

end ApiTypings
