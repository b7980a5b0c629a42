import ApiTypings.Declaration.File
import ApiTypings.Proofs.Declaration.Body
import ApiTypings.Proofs.Exclusion.Request
import ApiTypings.Proofs.Text.Sorted

/-!
Excluded names in declarations.

What a node excludes, itself or by what it extends, is declared never in the section of its kind. A
section is there only if members of the kind are left, so a name can be excluded without being
declared never anywhere: all members of its kind are gone, and it is neither excluded as a name of
the other kind, with members of that kind left, nor the name of a removed member of that kind.
-/

namespace ApiTypings

open Exclusion

namespace Declaration

variable {t : Tree} {p : Path} {r : Resolution} {scope : Scope} {kind : MemberKind} {name : String}

theorem nameKey?_eq_text_iff {v : Json} : v.nameKey? = some (.text name) ↔ v = .str name := by
  cases v with
  | float x =>
    rw [Json.nameKey?]
    split <;> simp
  | _ => simp [Json.nameKey?]

theorem text_mem_keysOf_iff {record : TypeRecord} :
    .text name ∈ keysOf record kind ↔ ∃ m ∈ membersOf record kind, m.name = .str name := by
  simp only [keysOf, List.mem_filterMap, nameKey?_eq_text_iff]

/-! ### What is prescribed -/

theorem mem_excluded_iff (h : t.Prescribes p r) :
    name ∈ kind.excluded r.excluded ↔ t.Excludes kind.own p name := by
  cases kind with
  | property => exact h.properties name
  | method => exact h.methods name

theorem membersOf_without (record : TypeRecord) (excluded : Exclusions) (kind : MemberKind) :
    membersOf (record.without excluded) kind =
      (membersOf record kind).filter fun m => !m.name.isTextIn (kind.excluded excluded) := by
  cases kind with
  | property => rw [membersOf, membersOf, List.filter_map]; rfl
  | method => rw [membersOf, membersOf, List.filter_map]; rfl

/-- No member is left under a name that is excluded for its kind. -/
theorem name_ne_of_mem_excluded (h : t.Prescribes p r) (hname : name ∈ kind.excluded r.excluded)
    {m : Member} (hm : m ∈ membersOf r.record kind) : m.name ≠ .str name := by
  obtain ⟨whole, -, hrecord⟩ := h.record
  rw [hrecord, membersOf_without] at hm
  have hkept := (List.mem_filter.1 hm).2
  rintro hstr
  simp [hstr, Json.isTextIn, hname] at hkept

theorem not_mem_keysOf_of_mem_excluded (h : t.Prescribes p r)
    (hname : name ∈ kind.excluded r.excluded) : .text name ∉ keysOf r.record kind := by
  rw [text_mem_keysOf_iff]
  rintro ⟨m, hm, hstr⟩
  exact name_ne_of_mem_excluded h hname hm hstr

/-! ### Names that are declared never -/

theorem mem_excludedItems_iff {names : List String} :
    .never (.str name) false ∈ excludedItems names ↔ name ∈ names := by
  unfold excludedItems
  split
  next hnone => simp [List.isEmpty_iff.1 hnone]
  · simp

theorem memberItem_eq_never_iff {m : Member} :
    memberItem scope r kind m = .never (.str name) false ↔
      m.removed ∧ m.name = .str name ∧ .text name ∉ keysOf r.record kind.other := by
  unfold memberItem
  split
  next hremoved =>
    rw [BodyItem.never.injEq]
    constructor
    · rintro ⟨hname, hothers⟩
      refine ⟨hremoved, hname, ?_⟩
      simpa [hname, Json.nameKey?] using hothers
    · rintro ⟨-, hname, hothers⟩
      exact ⟨hname, by simpa [hname, Json.nameKey?] using hothers⟩
  next hlive => simp [hlive]

/-- A name is declared never for a kind if members of the kind are left and it is excluded, or if it
is the name of a removed member that no member of the other kind shares. -/
theorem mem_sectionItems_iff :
    .never (.str name) false ∈ sectionItems scope r kind ↔
      (membersOf r.record kind ≠ [] ∧ name ∈ kind.excluded r.excluded) ∨
        (∃ m ∈ membersOf r.record kind, m.removed ∧ m.name = .str name) ∧
          .text name ∉ keysOf r.record kind.other := by
  have hheadings : .never (.str name) false ∉ scope.headings := by
    cases scope <;> simp [Scope.headings]
  unfold sectionItems
  split
  next hnone => simp [List.isEmpty_iff.1 hnone]
  next hsome =>
    have hne : membersOf r.record kind ≠ [] := fun hnil => hsome (List.isEmpty_iff.2 hnil)
    simp only [List.mem_append, hheadings, false_or, mem_excludedItems_iff, List.mem_map,
      memberItem_eq_never_iff, hne, ne_eq, not_false_eq_true, true_and]
    refine or_congr_right ⟨?_, ?_⟩
    · rintro ⟨m, hm, hremoved, hname, hothers⟩
      exact ⟨⟨m, hm, hremoved, hname⟩, hothers⟩
    · rintro ⟨⟨m, hm, hremoved, hname⟩, hothers⟩
      exact ⟨m, hm, hremoved, hname, hothers⟩

theorem mem_bodyItems_iff (kind : MemberKind) :
    .never (.str name) false ∈ bodyItems scope r ↔
      .never (.str name) false ∈ sectionItems scope r kind ∨
        .never (.str name) false ∈ sectionItems scope r kind.other := by
  rw [bodyItems, List.mem_append]
  cases kind with
  | property => rfl
  | method => exact or_comm

/-- Where an excluded name is declared never. -/
theorem excluded_mem_bodyItems_iff (h : t.Prescribes p r)
    (hname : name ∈ kind.excluded r.excluded) :
    .never (.str name) false ∈ bodyItems scope r ↔
      membersOf r.record kind ≠ [] ∨
        (membersOf r.record kind.other ≠ [] ∧ name ∈ kind.other.excluded r.excluded) ∨
        ∃ m ∈ membersOf r.record kind.other, m.removed ∧ m.name = .str name := by
  have hgone : ¬∃ m ∈ membersOf r.record kind, m.removed ∧ m.name = .str name :=
    fun ⟨_, hm, _, hstr⟩ => name_ne_of_mem_excluded h hname hm hstr
  rw [mem_bodyItems_iff kind, mem_sectionItems_iff, mem_sectionItems_iff, MemberKind.other_other]
  simp only [hname, hgone, not_mem_keysOf_of_mem_excluded h hname, and_true, false_and, or_false,
    not_false_eq_true]

/-! ### Nodes that are declared -/

/-- A node is declared by a text: its name can be declared, and it is no placeholder. -/
structure Shows (options : Options) (t : Tree) (n : Node) (text : String) : Prop where
  declarable : isDeclarable (n.path.baseName t.rootName) = true
  full : (t.branch n).isPlaceholder = false
  text : (nodeText options t n).outcome = .ok text

/-- Where the members of a resolved node of a tree are declared. -/
def scopeIn (t : Tree) (n : Node) (r : Resolution) : Scope :=
  scopeOf r.record (t.branch n).children

theorem Shows.declaresMembers {options : Options} {n : Node} {text : String}
    (h : Shows options t n text) : ∃ r, n.resolution = some r ∧ ∃ others,
      DeclaresMembers (contextOf options t) n r (scopeIn t n r) text others := by
  have hnode : (t.branch n).node = n := by rw [Tree.branch_eq, Branch.node]
  have hmembers := branchText_declaresMembers (b := t.branch n) (hnode.symm ▸ h.declarable) h.full
    h.text
  rwa [hnode] at hmembers

/-- Whatever requests have resolved the nodes of a built tree: a node that is declared has a block
with its members, and a name that it excludes is declared never there if and only if members of its
kind are left, or it is excluded for the other kind as well and members of that are left, or a
removed member of the other kind has it. -/
theorem excluded_declared_iff {apis : Fields} {rootName : String}
    (hbuild : (Tree.build (.obj apis) rootName).outcome = .ok t) (requests : List Request)
    (options : Options) {n : Node} (hn : n ∈ (performAll t requests).nodes) {text : String}
    (hshows : Shows options (performAll t requests) n text) :
    ∃ r others, n.resolution = some r ∧
      DeclaresMembers (contextOf options (performAll t requests)) n r
        (scopeIn (performAll t requests) n r) text others ∧
      ∀ kind name, (performAll t requests).Excludes kind.own n.path name →
        (.never (.str name) false ∈ bodyItems (scopeIn (performAll t requests) n r) r ↔
          membersOf r.record kind ≠ [] ∨
            (membersOf r.record kind.other ≠ [] ∧
              (performAll t requests).Excludes kind.other.own n.path name) ∨
            ∃ m ∈ membersOf r.record kind.other, m.removed ∧ m.name = .str name) := by
  obtain ⟨hmemo, -⟩ := performAll_spec (Tree.memo_build hbuild) requests
  obtain ⟨r, hr, others, hmembers⟩ := hshows.declaresMembers
  refine ⟨r, others, hr, hmembers, fun kind name hname => ?_⟩
  rw [← Tree.nodeAt_path hmemo.proper.nodup hn] at hr
  have hprescribes := (hmemo.settled n.path r hr).prescribes
  rw [excluded_mem_bodyItems_iff hprescribes ((mem_excluded_iff hprescribes).2 hname),
    mem_excluded_iff hprescribes]

/-- A type without members that excludes one, and one that extends it and has members left. -/
def heirRecords : Fields :=
  [("A", .obj [("name", .str "A"), ("excludes", .obj [("methods", .arr [.str "x"])])]),
    ("B", .obj [("name", .str "B"), ("extends", .str "A"),
      ("methods", .arr [.obj [("name", .str "x")], .obj [("name", .str "m")]])])]

/-- The tree of `heirRecords`. -/
def heirTree : Tree :=
  ⟨"Global", "",
    [Node.blank [] false,
      ⟨["A"], [("name", .str "A"), ("excludes", .obj [("methods", .arr [.str "x"])])], false, none⟩,
      ⟨["B"], [("name", .str "B"), ("extends", .str "A"),
        ("methods", .arr [.obj [("name", .str "x")], .obj [("name", .str "m")]])], false, none⟩],
    []⟩

theorem excluded_declared_iff_heirRecords :
    (Tree.build (.obj heirRecords) "Global").outcome = .ok heirTree ∧
      ∃ n ∈ (performAll heirTree [.all]).nodes, ∃ text, Shows .standard (performAll heirTree [.all])
        n text ∧ ∃ r others, n.resolution = some r ∧
          DeclaresMembers (contextOf .standard (performAll heirTree [.all])) n r
            (scopeIn (performAll heirTree [.all]) n r) text others ∧
          .never (.str "x") false ∈ bodyItems (scopeIn (performAll heirTree [.all]) n r) r := by
  have hbuild : (Tree.build (.obj heirRecords) "Global").outcome = .ok heirTree := by rfl
  have hresolved := show performAll heirTree [.all] = _ by cbv
  have hn : (performAll heirTree [.all]).nodeAt ["B"] ∈ (performAll heirTree [.all]).nodes :=
    Tree.nodeAt_mem_nodes (by rw [hresolved]; decide +kernel)
  have hshows : Shows .standard (performAll heirTree [.all])
      ((performAll heirTree [.all]).nodeAt ["B"])
      ("declare class B \x7b\n\tprotected constructor();\n\t// B methods\n\tx: never;\n\n" ++
        "\tm(): void;\n\x7d\n") := by
    rw [hresolved]
    exact ⟨by decide +kernel, by decide +kernel, by decide +kernel⟩
  have hexcludes : (performAll heirTree [.all]).Excludes OwnExclusions.methods
      ((performAll heirTree [.all]).nodeAt ["B"]).path "x" := by
    refine ⟨["A"], ⟨["x"], [], []⟩, .single ?_, ?_, List.mem_singleton.2 rfl⟩
    · rw [hresolved]
      rfl
    · rw [hresolved]
      rfl
  have hleft : ((performAll heirTree [.all]).nodeAt ["B"]).resolution.map
      (fun r => (membersOf r.record .method).isEmpty) = some false := by
    rw [hresolved]
    rfl
  obtain ⟨r, others, hr, hmembers, hdeclared⟩ :=
    excluded_declared_iff hbuild [.all] .standard hn hshows
  refine ⟨hbuild, _, hn, _, hshows, r, others, hr, hmembers, (hdeclared .method "x" hexcludes).2 ?_⟩
  rw [hr] at hleft
  exact .inl fun hnil => by simp [hnil] at hleft

/-- The type that excludes the name is declared without it. -/
theorem excluded_undeclared_heirRecords :
    (Tree.build (.obj heirRecords) "Global").outcome = .ok heirTree ∧
      ((performAll heirTree [.all]).nodeAt ["A"]).resolution.map (·.excluded.methods) =
        some ["x"] ∧
      Shows .standard (performAll heirTree [.all]) ((performAll heirTree [.all]).nodeAt ["A"])
        "declare class A \x7b\n\tprotected constructor();\n\x7d\n" := by
  have hresolved := show performAll heirTree [.all] = _ by cbv
  refine ⟨by rfl, ?_, ?_⟩
  · rw [hresolved]
    rfl
  · rw [hresolved]
    exact ⟨by decide +kernel, by decide +kernel, by decide +kernel⟩

end Declaration

end ApiTypings
