import ApiTypings.Proofs.Declaration.Composition
import ApiTypings.Proofs.Declaration.Stages
import ApiTypings.Proofs.Namespace.Created
import ApiTypings.Proofs.Text.Pieces

/-!
Inheritance clauses.

A class or an interface is declared with a clause that names the type it extends, as the description
spells it. The name leads to a node, since the exclusions of the extended node were asked for. In
the file there is a class or an interface at that node unless one of three things keeps it from
being declared so: a segment on the way that cannot be declared, a placeholder, or a namespace in
its place. A name with the root's name in front leads past it, so that its text is not the path of
the node.
-/

namespace ApiTypings

namespace Tree

variable {u : Tree} {c : Node} {base : Path} {s : String} {q : List String}

theorem exists_mem_childrenOf (h : base ++ [s] ∈ u.paths) :
    ∃ c ∈ u.childrenOf base, c.path = base ++ [s] := by
  obtain ⟨c, hc, hpath⟩ := mem_paths.1 h
  refine ⟨c, List.mem_filter.2 ⟨hc, ?_⟩, hpath⟩
  rw [hpath]
  exact Path.isChildOf_concat.2 rfl

theorem exists_path_of_mem_childrenOf (h : c ∈ u.childrenOf base) : ∃ s, c.path = base ++ [s] := by
  obtain ⟨-, hchild⟩ := List.mem_filter.1 h
  simp only [Path.isChildOf, Bool.and_eq_true, Bool.not_eq_true', beq_iff_eq] at hchild
  obtain ⟨hne, rfl⟩ := hchild
  have hne : c.path ≠ [] := by simpa using hne
  exact ⟨c.path.getLast hne, (List.dropLast_append_getLast hne).symm⟩

/-- The path of a node leads through nodes. -/
theorem Proper.mem_paths_of_append (hu : u.Proper) (h : base ++ q ∈ u.paths) (hne : base ≠ []) :
    base ∈ u.paths := hu.closed _ h _ (Path.mem_steps.2 ⟨hne, List.prefix_append ..⟩)

theorem Proper.nodeAt_path_of_mem_childrenOf (hu : u.Proper) (h : c ∈ u.childrenOf base) :
    u.nodeAt c.path = c := nodeAt_path hu.nodup (List.mem_of_mem_filter h)

/-- The way to a node begins with a child of the node it starts at, and goes on from there. -/
theorem Proper.exists_step (hu : u.Proper) (h : base ++ s :: q ∈ u.paths) :
    ∃ c ∈ u.childrenOf base, c.path = base ++ [s] ∧ u.nodeAt c.path = c ∧
      base ++ s :: q = c.path ++ q := by
  rw [List.append_cons] at h
  obtain ⟨c, hc, hpath⟩ := exists_mem_childrenOf (hu.mem_paths_of_append h (by simp))
  exact ⟨c, hc, hpath, hu.nodeAt_path_of_mem_childrenOf hc, by rw [hpath, List.append_cons]⟩

/-! ### Placeholders -/

theorem isPlaceholder_of_mem_childrenOf {n : Node} (hc : c ∈ u.childrenOf n.path)
    (h : (u.branch n).isPlaceholder = true) : (u.branch c).isPlaceholder = true := by
  rw [branch_eq, Branch.isPlaceholder, Bool.and_eq_true, Branch.arePlaceholders_iff] at h
  exact h.2 _ (List.mem_map.2 ⟨c, hc, rfl⟩)

/-- Whatever stands below a placeholder is a placeholder. -/
theorem Proper.isPlaceholder_below (hu : u.Proper) {n : Node} (hn : u.nodeAt n.path = n)
    (hq : n.path ++ q ∈ u.paths) (h : (u.branch n).isPlaceholder = true) :
    (u.branch (u.nodeAt (n.path ++ q))).isPlaceholder = true := by
  induction q generalizing n with
  | nil => rwa [List.append_nil, hn]
  | cons s rest ih =>
      obtain ⟨c, hc, -, hnode, happend⟩ := hu.exists_step hq
      rw [happend] at hq ⊢
      exact ih hnode hq (isPlaceholder_of_mem_childrenOf hc h)

end Tree

namespace Declaration

open Report Exclusion

variable {ctx : Context} {u : Tree} {n c : Node} {base p : Path} {s : String} {q : List String}
  {b : Branch} {r : Resolution} {rootName text : String}

/-! ### Declared paths -/

theorem mem_declaredBelow {bs : List Branch} :
    b ∈ declaredBelow rootName bs ↔ ∃ a ∈ bs, b ∈ declaredBranches rootName a := by
  induction bs with
  | nil => simp [declaredBelow]
  | cons a rest ih => rw [declaredBelow, List.mem_append, ih, List.exists_mem_cons_iff]

theorem mem_declaredBranches_branch : b ∈ declaredBranches rootName (u.branch c) ↔
    isDeclarable (c.path.baseName rootName) = true ∧ (u.branch c).isPlaceholder = false ∧
      (b = u.branch c ∨ b ∈ declaredBelow rootName ((u.childrenOf c.path).map u.branch)) := by
  rw [Tree.branch_eq, declaredBranches]
  split
  next hdeclared =>
    rw [Bool.and_eq_true, Bool.not_eq_true'] at hdeclared
    rw [List.mem_cons]
    exact ⟨fun h => ⟨hdeclared.1, hdeclared.2, h⟩, fun h => h.2.2⟩
  next hskipped =>
    rw [Bool.and_eq_true, Bool.not_eq_true'] at hskipped
    exact ⟨fun h => absurd h List.not_mem_nil, fun h => absurd ⟨h.1, h.2.1⟩ hskipped⟩

theorem baseName_concat (h : c.path = base ++ [s]) : c.path.baseName rootName = s := by
  rw [h, Path.baseName, List.getLast?_concat, Option.getD_some]

/-- What is declared below a node are the branches at the paths that go on from there along segments
that can be declared, placeholders left out. -/
theorem mem_declaredBelow_iff (hu : u.Proper) (n : Node) :
    b ∈ declaredBelow rootName ((u.childrenOf n.path).map u.branch) ↔
      ∃ q, q ≠ [] ∧ n.path ++ q ∈ u.paths ∧ b = u.branch (u.nodeAt (n.path ++ q)) ∧
        (∀ s ∈ q, isDeclarable s = true) ∧ b.isPlaceholder = false := by
  rw [mem_declaredBelow]
  constructor
  · intro h
    induction n using Tree.below_induction (t := u) with
    | h n ih =>
        obtain ⟨a, ha, hb⟩ := h
        obtain ⟨c, hc, rfl⟩ := List.mem_map.1 ha
        obtain ⟨s, hs⟩ := Tree.exists_path_of_mem_childrenOf hc
        obtain ⟨hname, hfull, hb⟩ := mem_declaredBranches_branch.1 hb
        rw [baseName_concat hs] at hname
        have hnode := hu.nodeAt_path_of_mem_childrenOf hc
        rcases hb with rfl | hb
        · refine ⟨[s], List.cons_ne_nil _ _, ?_, ?_, by simpa using hname, hfull⟩
          · rw [← hs]
            exact Tree.mem_paths.2 ⟨c, List.mem_of_mem_filter hc, rfl⟩
          · rw [← hs, hnode]
        · obtain ⟨q, -, hq, hb, hsegments, hfull⟩ := ih c hc (mem_declaredBelow.1 hb)
          rw [hs, List.append_assoc, List.singleton_append] at hq hb
          exact ⟨s :: q, List.cons_ne_nil _ _, hq, hb,
            List.forall_mem_cons.2 ⟨hname, hsegments⟩, hfull⟩
  · rintro ⟨q, hne, hq, rfl, hsegments, hfull⟩
    induction q generalizing n with
    | nil => exact absurd rfl hne
    | cons s rest ih =>
        obtain ⟨hname, hrest⟩ := List.forall_mem_cons.1 hsegments
        obtain ⟨c, hc, hpath, hnode, happend⟩ := hu.exists_step hq
        rw [happend] at hq hfull ⊢
        refine ⟨_, List.mem_map.2 ⟨c, hc, rfl⟩, ?_⟩
        rw [mem_declaredBranches_branch, baseName_concat hpath]
        refine ⟨hname, ?_, ?_⟩
        · rw [Bool.eq_false_iff]
          exact fun h => Bool.eq_false_iff.1 hfull (hu.isPlaceholder_below hnode hq h)
        · by_cases hnil : rest = []
          · left
            rw [hnil, List.append_nil, hnode]
          · right
            exact mem_declaredBelow.2 (ih c hnil hq hrest hfull)

/-- Nothing keeps the node at a path from being declared as a class or an interface: all segments
can be declared, the node is no placeholder, and it is not declared as a namespace. -/
structure StandsAsType (u : Tree) (p : Path) (r : Resolution) : Prop where
  segments : ∀ s ∈ p, isDeclarable s = true
  full : (u.branch (u.nodeAt p)).isPlaceholder = false
  type : scopeIn u (u.nodeAt p) r = .type

theorem mem_declaredBelowRoot_iff (hu : u.Proper) : b ∈ declaredBelowRoot u ↔
    ∃ p, p ≠ [] ∧ p ∈ u.paths ∧ b = u.branch (u.nodeAt p) ∧ (∀ s ∈ p, isDeclarable s = true) ∧
      b.isPlaceholder = false := by
  have hroot : (u.nodeAt []).path = [] := u.path_nodeAt []
  rw [declaredBelowRoot, Tree.rootBranch, Tree.branch_eq, Branch.children,
    mem_declaredBelow_iff hu, hroot]
  rfl

theorem node_branch (p : Path) : (u.branch (u.nodeAt p)).node = u.nodeAt p := by
  rw [Tree.branch_eq, Branch.node]

/-! ### The blocks of a tree -/

/-- Below a node the paths of the branches lead on one segment at a time. -/
theorem allPathed_children (u : Tree) (n : Node) :
    AllPathed n.path ((u.childrenOf n.path).map u.branch) := by
  induction n using Tree.below_induction (t := u) with
  | h n ih =>
      refine allPathed_iff.2 fun b hb => ?_
      obtain ⟨c, hc, rfl⟩ := List.mem_map.1 hb
      rw [Tree.branch_eq, Pathed]
      exact ⟨Tree.exists_path_of_mem_childrenOf hc, ih c hc⟩

theorem allPathed_root (u : Tree) : AllPathed [] u.rootBranch.children := by
  have hpathed := allPathed_children u (u.nodeAt [])
  rw [u.path_nodeAt []] at hpathed
  rw [Tree.rootBranch, Tree.branch_eq, Branch.children, u.path_nodeAt []]
  exact hpathed

/-- A file is written block by block: its header, the lines of the root's members, the blocks of the
branches below the root, and its footer. -/
structure WrittenAs (options : Options) (u : Tree) (text : String) (blocks : List Block) :
    Prop where
  composed : (blocksOfAll (contextOf options u) u.rootBranch.children).outcome = .ok blocks
  written : ∃ root, (u.nodeAt []).resolution = some root ∧
    text = fileText u.version (linesText (globalLines root.record) ++ blocksText 0 blocks)

theorem exists_writtenAs {options : Options} {body : String}
    (h : (treeBody options u).outcome = .ok body) :
    ∃ blocks, WrittenAs options u (fileText u.version body) blocks := by
  obtain ⟨root, types, hroot, htypes, rfl⟩ := treeBody_eq_ok h
  rw [branchTexts_eq _ [] (allPathed_root u)] at htypes
  obtain ⟨blocks, hblocks, rfl⟩ := outcome_map_eq_ok.1 htypes
  exact ⟨blocks, hblocks, root, hroot, rfl⟩

namespace WrittenAs

variable {options : Options} {blocks : List Block} {d : TypeBlock}

/-- The text of the blocks is that of the branches. -/
theorem branchTexts (h : WrittenAs options u text blocks) :
    (branchTexts (contextOf options u) u.rootBranch.children).outcome =
      .ok (blocksText 0 blocks) := by
  rw [branchTexts_eq _ [] (allPathed_root u)]
  exact outcome_map_eq_ok.2 ⟨blocks, h.composed, rfl⟩

/-- A class or an interface of a file is that of the node at its path, which nothing keeps from
being declared as one. -/
theorem of_mem_types (hu : u.Proper) (h : WrittenAs options u text blocks)
    (hd : (p, d) ∈ typesOf [] blocks) : p ≠ [] ∧ ∃ r, (u.nodeAt p).resolution = some r ∧
      StandsAsType u p r ∧ (typeBlock (contextOf options u) (u.nodeAt p) r).outcome = .ok d := by
  obtain ⟨b, hb, hpath, r, hr, htype, hblock⟩ :=
    (mem_types_blocksOfAll _ [] blocks (allPathed_root u) h.composed p d).1 hd
  obtain ⟨q, hne, -, rfl, hsegments, hfull⟩ := (mem_declaredBelowRoot_iff hu).1 hb
  rw [node_branch] at hpath hr hblock
  rw [Tree.path_nodeAt] at hpath
  subst hpath
  exact ⟨hne, r, hr, ⟨hsegments, hfull, htype⟩, hblock⟩

/-- If nothing keeps a node from being declared as a class or an interface, then there is one at its
path in the file. -/
theorem exists_mem_types (hu : u.Proper) (h : WrittenAs options u text blocks) (hne : p ≠ [])
    (hr : (u.nodeAt p).resolution = some r) (hstands : StandsAsType u p r) :
    ∃ d, (p, d) ∈ typesOf [] blocks := by
  have hb : u.branch (u.nodeAt p) ∈ declaredBelowRoot u :=
    (mem_declaredBelowRoot_iff hu).2 ⟨p, hne, Tree.path_mem_of_resolution hr, rfl,
      hstands.segments, hstands.full⟩
  obtain ⟨r', own, hr', hown, -⟩ := branchTexts_within _ _ h.branchTexts _ hb
  rw [node_branch] at hr' hown
  obtain rfl := Option.some.inj (hr.symm.trans hr')
  obtain ⟨base, s, hpath⟩ := (List.eq_nil_or_concat' p).resolve_left hne
  rw [← u.path_nodeAt p] at hpath
  obtain ⟨d, hd⟩ := hown.exists_typeBlock hpath hstands.type
  exact ⟨d, (mem_types_blocksOfAll _ [] blocks (allPathed_root u) h.composed p d).2
    ⟨_, hb, by rw [node_branch, Tree.path_nodeAt], r, by rwa [node_branch], hstands.type,
      by rwa [node_branch]⟩⟩

/-- A file has a class or an interface at a path if and only if nothing keeps the node there from
being declared as one. -/
theorem mem_types_iff (hu : u.Proper) (h : WrittenAs options u text blocks) :
    (∃ d, (p, d) ∈ typesOf [] blocks) ↔
      p ≠ [] ∧ ∃ r, (u.nodeAt p).resolution = some r ∧ StandsAsType u p r := by
  constructor
  · rintro ⟨d, hd⟩
    obtain ⟨hne, r, hr, hstands, -⟩ := h.of_mem_types hu hd
    exact ⟨hne, r, hr, hstands⟩
  · rintro ⟨hne, r, hr, hstands⟩
    exact h.exists_mem_types hu hne hr hstands

end WrittenAs

/-! ### Targets -/

/-- Where the name in a clause leads: to a resolved node. Unless the root's name stands in front of
it, that is the node at the path that the name spells, and then there is a class or an interface at
this path in the file if and only if nothing keeps the node from being declared as one. -/
structure LeadsTo (u : Tree) (blocks : List Block) (target : String) (above : Resolution) :
    Prop where
  resolved : (u.nodeAt (Path.ofName u.rootName target)).resolution = some above
  declared_iff : Path.ofName u.rootName target = Text.pieces '.' target →
    ((∃ d, (Text.pieces '.' target, d) ∈ typesOf [] blocks) ↔
      StandsAsType u (Text.pieces '.' target) above)

/-- The clauses in the blocks of a file. There is a class or an interface at a path just if the node
at this path stands as one; its clause is that of the node's record, and the name in it leads to
where it should. -/
structure ClausesLead (u : Tree) (blocks : List Block) : Prop where
  types : ∀ p, (∃ d, (p, d) ∈ typesOf [] blocks) ↔
    p ≠ [] ∧ ∃ r, (u.nodeAt p).resolution = some r ∧ StandsAsType u p r
  clauses : ∀ p d, (p, d) ∈ typesOf [] blocks →
    (u.nodeAt p).resolution.map (·.record.extends?) = some d.extended
  targets : ∀ p d, (p, d) ∈ typesOf [] blocks → ∀ target, d.extended = some target →
    ∃ above, LeadsTo u blocks target above

/-- The node that a settled node extends is settled. -/
theorem exists_above (hu : u.Memo) (hr : (u.nodeAt p).resolution = some r) {target : String}
    (htarget : r.record.extends? = some target) :
    ∃ above, (u.nodeAt (Path.ofName u.rootName target)).resolution = some above := by
  obtain ⟨whole, hwhole, hrecord⟩ := (hu.settled p r hr).prescribes.record
  refine hu.ready p _ r hr ?_
  rw [Tree.Extends, Tree.extended?_of_whole hwhole]
  rw [hrecord] at htarget
  have hwholeTarget : whole.extends? = some target := htarget
  rw [hwholeTarget, Option.map_some]

/-- The clauses in the file of a tree in which the settled nodes hold what is derived for them. -/
theorem WrittenAs.clausesLead {options : Options} {blocks : List Block} (hu : u.Memo)
    (hinherit : options.writeInheritance = true) (h : WrittenAs options u text blocks) :
    ClausesLead u blocks := by
  have hextended {p : Path} {d : TypeBlock} (hd : (p, d) ∈ typesOf [] blocks) :
      ∃ r, (u.nodeAt p).resolution = some r ∧ d.extended = r.record.extends? := by
    obtain ⟨-, r, hr, -, hblock⟩ := h.of_mem_types hu.proper hd
    refine ⟨r, hr, (typeBlock_eq_ok hblock).2.2.trans (if_pos hinherit)⟩
  refine ⟨fun p => h.mem_types_iff hu.proper, fun p d hd => ?_, fun p d hd target htarget => ?_⟩
  · obtain ⟨r, hr, hclause⟩ := hextended hd
    rw [hr, hclause, Option.map_some]
  · obtain ⟨r, hr, hclause⟩ := hextended hd
    obtain ⟨above, habove⟩ := exists_above hu hr (hclause.symm.trans htarget)
    refine ⟨above, habove, fun hspelt => ⟨fun hsome => ?_, fun hstands => ?_⟩⟩
    · obtain ⟨-, found, hfound, hstands⟩ := (h.mem_types_iff hu.proper).1 hsome
      rw [← hspelt, habove] at hfound
      exact Option.some.inj hfound ▸ hstands
    · exact (h.mem_types_iff hu.proper).2
        ⟨Text.pieces_ne_nil '.' target, above, hspelt ▸ habove, hstands⟩

/-- Wherever a generation with inheritance clauses succeeds, its text is written block by block. The
name in the clause of each class and interface leads to a node of the resolved tree, and to a class
or an interface of the same file unless there is a placeholder, a namespace or a segment that cannot
be declared in its place. -/
theorem clausesLead_generate {options : Options} {apis : Fields}
    (hinherit : options.writeInheritance = true)
    (h : (generate options (.obj apis)).outcome = .ok text) :
    ∃ t blocks, (Tree.build (.obj apis) options.rootName).outcome = .ok t ∧
      WrittenAs options (resolveAll t).tree text blocks ∧
      ClausesLead (resolveAll t).tree blocks := by
  cases hbuild : (Tree.build (.obj apis) options.rootName).outcome with
  | error fault => simp [outcome_generate, hbuild, Except.bind] at h
  | ok t =>
      rw [outcome_generate_of_build hbuild] at h
      obtain ⟨_, -, h⟩ := Success.bind_eq_ok.1 h
      obtain ⟨body, hbody, rfl⟩ := Success.map_eq_ok.1 h
      have hmemo := (sound_resolveAll (Tree.memo_build hbuild)).memo
      obtain ⟨blocks, hwritten⟩ := exists_writtenAs hbody
      exact ⟨t, blocks, rfl, hwritten, hwritten.clausesLead hmemo hinherit⟩

/-- The standard options with inheritance clauses. -/
def inheriting : Options := { Options.standard with writeInheritance := true }

/-- A type that extends one in a namespace, next to it. -/
def kinRecords : Fields :=
  [("N.A", .obj [("name", .str "N.A")]),
    ("B", .obj [("name", .str "B"), ("extends", .str "N.A")])]

/-- The tree of `kinRecords`. -/
def kinTree : Tree :=
  ⟨"Global", "",
    [Node.blank [] false, Node.blank ["N"] false,
      ⟨["N", "A"], [("name", .str "N.A")], false, none⟩,
      ⟨["B"], [("name", .str "B"), ("extends", .str "N.A")], false, none⟩], []⟩

theorem clausesLead_generate_kinRecords :
    (Tree.build (.obj kinRecords) inheriting.rootName).outcome = .ok kinTree ∧
      ∃ text blocks, (generate inheriting (.obj kinRecords)).outcome = .ok text ∧
        WrittenAs inheriting (resolveAll kinTree).tree text blocks ∧
        ClausesLead (resolveAll kinTree).tree blocks ∧
        (∃ d, (["B"], d) ∈ typesOf [] blocks ∧ d.extended = some "N.A") ∧
        (∃ above, StandsAsType (resolveAll kinTree).tree ["N", "A"] above) ∧
        ∃ d, (["N", "A"], d) ∈ typesOf [] blocks := by
  have hbuild : (Tree.build (.obj kinRecords) inheriting.rootName).outcome = .ok kinTree := by rfl
  have hresolved := show resolveAll kinTree = _ by cbv
  have hok : (resolveAll kinTree).outcome = .ok () := by rw [hresolved]
  obtain ⟨body, hbody⟩ : ∃ body,
      (treeBody inheriting (resolveAll kinTree).tree).outcome = .ok body := by
    rw [treeBody, show (resolveAll kinTree).tree.rootBranch = _ by cbv, hresolved]
    exact ⟨_, rfl⟩
  have htext : (generate inheriting (.obj kinRecords)).outcome =
      .ok (fileText (resolveAll kinTree).tree.version body) := by
    rw [outcome_generate_of_resolveAll hbuild hok, hbody]
    rfl
  obtain ⟨t, blocks, hbuild', hwritten, hlead⟩ := clausesLead_generate rfl htext
  obtain rfl : kinTree = t := Except.ok.inj (hbuild.symm.trans hbuild')
  obtain ⟨r, hr, htarget⟩ : ∃ r, ((resolveAll kinTree).tree.nodeAt ["B"]).resolution = some r ∧
      r.record.extends? = some "N.A" := by
    rw [hresolved]
    exact ⟨_, rfl, rfl⟩
  have hstands (p : Path) (r : Resolution) (hp : p ∈ [["B"], ["N", "A"]]) :
      StandsAsType (resolveAll kinTree).tree p r := by
    have hsegments : ∀ p ∈ [["B"], ["N", "A"]], ∀ s ∈ p, isDeclarable s = true := by decide
    have hleaves : ∀ p ∈ [["B"], ["N", "A"]], ((resolveAll kinTree).tree.branch
        ((resolveAll kinTree).tree.nodeAt p)).isPlaceholder = false ∧
        ((resolveAll kinTree).tree.branch
          ((resolveAll kinTree).tree.nodeAt p)).children.isEmpty = true := by
      rw [hresolved]
      decide +kernel
    exact ⟨hsegments p hp, (hleaves p hp).1, if_pos (.inr (hleaves p hp).2)⟩
  obtain ⟨d, hd⟩ := (hlead.types ["B"]).2 ⟨List.cons_ne_nil _ _, r, hr, hstands _ r (by simp)⟩
  have hclause : d.extended = some "N.A" := by
    have hclause := hlead.clauses _ _ hd
    rw [hr, Option.map_some, htarget] at hclause
    exact (Option.some.inj hclause).symm
  obtain ⟨above, habove⟩ := hlead.targets _ _ hd _ hclause
  have hspelt : Path.ofName (resolveAll kinTree).tree.rootName "N.A" = Text.pieces '.' "N.A" := by
    rw [hresolved]
    decide
  have hkin := (habove.declared_iff hspelt).2 (hstands _ above (by decide))
  exact ⟨hbuild, _, blocks, htext, hwritten, hlead, ⟨d, hd, hclause⟩,
    ⟨above, hstands _ above (by simp)⟩, hkin⟩

/-- Types that extend a type without a record, a namespace, and a name that cannot be declared. -/
def strayRecords : Fields :=
  [("Foo", .obj [("name", .str "Foo"), ("extends", .str "Ghost.Base")]),
    ("Bar", .obj [("name", .str "Bar"), ("extends", .str "Zone")]),
    ("Zone.In", .obj [("name", .str "Zone.In")]),
    ("Baz", .obj [("name", .str "Baz"), ("extends", .str "2D")]),
    ("2D", .obj [("name", .str "2D")])]

/-- The tree of `strayRecords`. -/
def strayTree : Tree :=
  ⟨"Global", "",
    [Node.blank [] false,
      ⟨["Foo"], [("name", .str "Foo"), ("extends", .str "Ghost.Base")], false, none⟩,
      ⟨["Bar"], [("name", .str "Bar"), ("extends", .str "Zone")], false, none⟩,
      Node.blank ["Zone"] false,
      ⟨["Zone", "In"], [("name", .str "Zone.In")], false, none⟩,
      ⟨["Baz"], [("name", .str "Baz"), ("extends", .str "2D")], false, none⟩,
      ⟨["2D"], [("name", .str "2D")], false, none⟩], []⟩

/-- The paths of the classes and interfaces of a file, each with the type that its clause names. -/
def clausesOf (blocks : List Block) : List (Path × Option String) :=
  (typesOf [] blocks).map fun e => (e.1, e.2.extended)

/-- The three types are declared with their clauses, and there is no class or interface at the path
that a clause names. -/
theorem clauses_dangle_strayRecords :
    (Tree.build (.obj strayRecords) inheriting.rootName).outcome = .ok strayTree ∧
      ∃ text blocks, (generate inheriting (.obj strayRecords)).outcome = .ok text ∧
        WrittenAs inheriting (resolveAll strayTree).tree text blocks ∧
        text = fileText ""
          ("declare class Foo extends Ghost.Base \x7b\n\tprotected constructor();\n\x7d\n" ++
            "declare class Bar extends Zone \x7b\n\tprotected constructor();\n\x7d\n" ++
            "declare namespace Zone \x7b\n\tclass In \x7b\n\t\tprotected constructor();\n" ++
            "\t\x7d\n\x7d\n" ++
            "declare class Baz extends 2D \x7b\n\tprotected constructor();\n\x7d\n" ++
            "// #Skip incorrect identifier \"2D\";\n") ∧
        clausesOf blocks = [(["Foo"], some "Ghost.Base"), (["Bar"], some "Zone"),
          (["Zone", "In"], none), (["Baz"], some "2D")] ∧
        ∀ target ∈ ["Ghost.Base", "Zone", "2D"], ∀ d,
          (Text.pieces '.' target, d) ∉ typesOf [] blocks := by
  have hbuild : (Tree.build (.obj strayRecords) inheriting.rootName).outcome =
      .ok strayTree := by rfl
  have hresolved := show resolveAll strayTree = _ by cbv
  have hroot := show (resolveAll strayTree).tree.rootBranch = _ by cbv
  have hok : (resolveAll strayTree).outcome = .ok () := by rw [hresolved]
  have hversion : (resolveAll strayTree).tree.version = "" := by rw [hresolved]
  have hbody : (treeBody inheriting (resolveAll strayTree).tree).outcome = .ok
      ("declare class Foo extends Ghost.Base \x7b\n\tprotected constructor();\n\x7d\n" ++
        "declare class Bar extends Zone \x7b\n\tprotected constructor();\n\x7d\n" ++
        "declare namespace Zone \x7b\n\tclass In \x7b\n\t\tprotected constructor();\n" ++
        "\t\x7d\n\x7d\n" ++
        "declare class Baz extends 2D \x7b\n\tprotected constructor();\n\x7d\n" ++
        "// #Skip incorrect identifier \"2D\";\n") := by
    rw [treeBody, hroot, hresolved]
    decide +kernel
  obtain ⟨blocks, hwritten⟩ := exists_writtenAs hbody
  rw [hversion] at hwritten
  have hclauses : clausesOf blocks = [(["Foo"], some "Ghost.Base"), (["Bar"], some "Zone"),
      (["Zone", "In"], none), (["Baz"], some "2D")] := by
    have hcomposed := congrArg (Except.map clausesOf) hwritten.composed
    rw [hroot, hresolved] at hcomposed
    exact (Except.ok.inj hcomposed).symm
  refine ⟨hbuild, _, blocks, ?_, hwritten, rfl, hclauses, fun target htarget d hd => ?_⟩
  · rw [outcome_generate_of_resolveAll hbuild hok, hbody, hversion]
    rfl
  · have hmem : (Text.pieces '.' target, d.extended) ∈ clausesOf blocks :=
      List.mem_map.2 ⟨_, hd, rfl⟩
    rw [hclauses] at hmem
    have hother : ∀ target ∈ ["Ghost.Base", "Zone", "2D"], ∀ e ∈
        [(["Foo"], some "Ghost.Base"), (["Bar"], some "Zone"), (["Zone", "In"], none),
          (["Baz"], some "2D")], Text.pieces '.' target ≠ e.1 := by decide
    exact hother target htarget _ hmem rfl

end Declaration

end ApiTypings
