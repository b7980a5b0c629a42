import ApiTypings.Proofs.Exclusion.Failure
import ApiTypings.Proofs.Exclusion.Recursion
import ApiTypings.Proofs.Namespace.Naming

/-!
Circles.

The climb knows a circle by a record name that it meets twice, and so it takes two nodes with
records of one name for a circle. With proper names no two nodes have that in common. Then a
resolution that ends with a circle is right about it, and one that meets a circle ends with it,
unless it ends before over a member whose name cannot be compared.
-/

namespace ApiTypings

open Exclusion

/-! ### Names that lead back -/

namespace Tree

variable {rootName : String} {apis : Fields} {t : Tree} {p q : Path}

/-- A description with proper names, and the tree that is built from it: each record states one
name, the root's or a proper one, and the name that a node extends is proper. -/
structure ProperNames (rootName : String) (apis : Fields) (t : Tree) : Prop where
  records : ∀ key api, (key, .obj api) ∈ apis → ∃ name, name ≠ "" ∧
    (∀ v, ("name", v) ∈ api ↔ v = .str name) ∧
    (name = rootName ∨ Path.ProperName rootName name)
  targets : ∀ n ∈ t.nodes, ∀ target ∈ TypeRecord.extendsOf? n.doc,
    Path.ProperName rootName target

/-- A tree in which names tell nodes apart: all nodes, and all that they extend, are at plain paths,
and the name of the record at a plain path leads back to that path. -/
structure NamesNodes (t : Tree) : Prop where
  nodes : ∀ p ∈ t.paths, p.Plain t.rootName
  targets : ∀ p q, t.Extends p q → q.Plain t.rootName
  names : ∀ p record, p.Plain t.rootName → t.wholeRecord p = .ok record →
    Path.ofRecord t.rootName record.name = p

/-- A placed record lies at the plain path that its one name leads to. -/
theorem ProperNames.placed (h : ProperNames rootName apis t) {api : Fields}
    (hplaced : (p, api) ∈ placements rootName apis) :
    p.Plain rootName ∧ ∃ name, name ≠ "" ∧ (∀ v, ("name", v) ∈ api ↔ v = .str name) ∧
      Path.ofRecord rootName name = p := by
  obtain ⟨⟨key, v⟩, hentry, hplace⟩ := List.mem_filterMap.1 hplaced
  cases v with
  | obj fields =>
      obtain ⟨name, hname, heq⟩ := Option.map_eq_some_iff.1 hplace
      obtain ⟨rfl, rfl⟩ := Prod.mk.inj heq
      obtain ⟨own, hne, hunique, hproper⟩ := h.records key fields hentry
      have hget : Fields.get fields "name" = .str own := by
        rw [Fields.get, Fields.get?_of_unique hunique, Option.getD_some]
      have hown : name = own := by
        obtain ⟨-, hown | ⟨habsent, -⟩⟩ := recordName?_eq_some.1 hname
        · exact Json.str.inj (hown.symm.trans hget)
        · simp [hget, Json.truthy, hne] at habsent
      subst hown
      refine ⟨?_, name, hne, hunique, rfl⟩
      rcases hproper with rfl | hproper
      · rw [Path.ofRecord, if_pos rfl]
        exact Path.plain_nil
      · rw [Path.ofRecord]
        split
        · exact Path.plain_nil
        · exact hproper.plain
  | _ => simp [placement?] at hplace

/-- The document of a node states the name of the record that was placed there last, and so does its
record; a node without records is named by its path. -/
theorem ProperNames.nameOf (h : ProperNames rootName apis t)
    (hm : Mirrors rootName (placements rootName apis) t) (hp : p.Plain rootName) :
    Path.ofRecord rootName (TypeRecord.nameOf (t.nodeAt p).doc (t.fullName p)) = p := by
  have hdoc := hm.docs p
  rcases List.eq_nil_or_concat (documentsAt (placements rootName apis) p) with
    hnil | ⟨front, last, hlast⟩
  · rw [hnil] at hdoc
    have hempty : (t.nodeAt p).doc = [] := (Except.ok.inj hdoc).symm
    have hfallback : TypeRecord.nameOf [] (t.fullName p) = t.fullName p := rfl
    rw [hempty, hfallback, fullName_of_fromEnd hm.fromEnd, hm.root]
    exact Path.ofRecord_fullName hp
  · rw [List.concat_eq_append] at hlast
    have hplaced : (p, last) ∈ placements rootName apis := by
      have hmem : last ∈ documentsAt (placements rootName apis) p := by simp [hlast]
      obtain ⟨⟨q, api⟩, hq, rfl⟩ := List.mem_map.1 hmem
      obtain ⟨hin, hpath⟩ := List.mem_filter.1 hq
      obtain rfl : q = p := by simpa using hpath
      exact hin
    obtain ⟨-, name, hne, hunique, hpath⟩ := h.placed hplaced
    rw [hlast, Document.mergeAll_concat] at hdoc
    cases hfront : Document.mergeAll front with
    | error fault => simp [hfront, Except.bind] at hdoc
    | ok target =>
        rw [hfront, Except.bind, Document.mergeInto] at hdoc
        cases hfault : (Document.mergeFields last target).fault with
        | some fault => simp [hfault] at hdoc
        | none =>
            have hvalue : (Document.mergeFields last target).value = (t.nodeAt p).doc := by
              simpa [hfault] using hdoc
            have hget := Document.get?_name_mergeFields (fun v => (hunique v).1)
              (.inr ⟨_, (hunique _).2 rfl⟩) hfault
            rw [hvalue] at hget
            have hname : TypeRecord.nameOf (t.nodeAt p).doc (t.fullName p) = name := by
              simp [TypeRecord.nameOf, Fields.get, hget, Json.asText, hne]
            rw [hname, hpath]

theorem namesNodes_build (hbuild : (build (.obj apis) rootName).outcome = .ok t)
    (h : ProperNames rootName apis t) : t.NamesNodes := by
  have hm := mirrors_build hbuild
  have hroot := hm.root
  subst hroot
  refine ⟨?_, ?_, ?_⟩
  · intro p hp
    rcases hm.mem_paths.1 hp with rfl | ⟨⟨q, api⟩, hplaced, hstep⟩
    · exact Path.plain_nil
    · exact (h.placed hplaced).1.of_isPrefix (Path.mem_steps.1 hstep).2
  · intro p q hpq
    obtain ⟨target, htarget, rfl⟩ := Option.map_eq_some_iff.1 hpq
    exact (h.targets _ (nodeAt_mem_nodes (path_mem_of_extends hpq)) target htarget).plain
  · intro p record hp hwhole
    rw [(extends?_of_ofFields hwhole).2]
    exact h.nameOf hm hp

end Tree

/-! ### What ends a resolution -/

namespace Tree

/-- Whether some node reaches itself by extensions. -/
def HasCircle (t : Tree) : Prop := ∃ n ∈ t.nodes, Relation.TransGen t.Extends n.path n.path

/-- The cause of a fault in a tree; resolving has no other faults than these two. -/
def Causes (t : Tree) : Fault → Prop
  | .cycle _ => t.HasCircle
  | .notAName => t.HasIncomparable
  | _ => False

variable {t : Tree} {p : Path} {whole : TypeRecord}

theorem hasCircle_of_transGen (h : Relation.TransGen t.Extends p p) : t.HasCircle := by
  obtain ⟨q, hpq, -⟩ := Relation.TransGen.head'_iff.1 h
  exact ⟨t.nodeAt p, nodeAt_mem_nodes (path_mem_of_extends hpq), (path_nodeAt t p).symm ▸ h⟩

end Tree

namespace Exclusion

variable {t u : Tree} {p q : Path} {fault : Fault}

/-! ### Names met twice -/

/-- The names met on the way to a node are those of records at plain paths that reach the node. -/
def Met (t : Tree) (met : List String) (p : Path) : Prop :=
  ∀ name ∈ met, ∃ x record, x.Plain t.rootName ∧ t.wholeRecord x = .ok record ∧
    record.name = name ∧ Relation.TransGen t.Extends x p

theorem Met.further {met : List String} {record : TypeRecord} (h : Met t met p)
    (hp : p.Plain t.rootName) (hwhole : t.wholeRecord p = .ok record) (hpq : t.Extends p q) :
    Met t (met ++ [record.name]) q := by
  intro name hname
  rcases List.mem_append.1 hname with hname | hname
  · obtain ⟨x, above, hx, hxwhole, rfl, hreach⟩ := h name hname
    exact ⟨x, above, hx, hxwhole, rfl, hreach.tail hpq⟩
  · obtain rfl := List.mem_singleton.1 hname
    exact ⟨p, record, hp, hwhole, rfl, .single hpq⟩

/-- Where names tell nodes apart, a climb is ended only by a circle or by a document that cannot be
read. The tree may have grown since, and what was settled since only makes the climb shorter. -/
theorem climb_fault {met : List String} (hnames : t.NamesNodes) (hu : u.Memo)
    (hgrows : t.GrowsTo u) (hp : p.Plain t.rootName) (hmet : Met t met p)
    (herror : (climb u p met).outcome = .error fault) :
    ∃ x, Relation.ReflTransGen t.Extends p x ∧
      ((∃ chain, fault = .cycle chain) ∧ Relation.TransGen t.Extends x x ∨
        t.wholeRecord x = .error fault) := by
  fun_induction climb u p met with
  | case1 => simp at herror
  | case2 u p met hr f hwhole =>
      obtain rfl := Except.error.inj herror
      have hsame := hgrows.sameDocuments hu.proper
      exact ⟨p, .refl, .inr ((hsame.wholeRecord p).symm.trans hwhole)⟩
  | case3 u p met hr record hwhole hname =>
      obtain rfl := Except.error.inj herror
      have hsame := hgrows.sameDocuments hu.proper
      have hwhole' : t.wholeRecord p = .ok record := (hsame.wholeRecord p).symm.trans hwhole
      obtain ⟨x, above, hx, hxwhole, hxname, hreach⟩ := hmet _ hname
      -- The name leads back to both of the nodes, so they are one.
      obtain rfl : x = p := by
        rw [← hnames.names x above hx hxwhole, hxname, hnames.names p record hp hwhole']
      exact ⟨x, .refl, .inl ⟨⟨_, rfl⟩, hreach⟩⟩
  | case4 => simp at herror
  | case5 u met record hname target htarget above remarks hr hwhole =>
      obtain rfl := Except.error.inj herror
      have hsame := hgrows.sameDocuments hu.proper
      have hextends := hsame.extends_iff.1 (extends_of_record hwhole htarget)
      exact ⟨above, .refl, .inl ⟨⟨_, rfl⟩, .single hextends⟩⟩
  | case6 u p met hr record hwhole hname target htarget above remarks hne up ih =>
      have hsame := hgrows.sameDocuments hu.proper
      have hextends := extends_of_record hwhole htarget
      have hextends' := hsame.extends_iff.1 hextends
      have hwhole' : t.wholeRecord p = .ok record := (hsame.wholeRecord p).symm.trans hwhole
      have hup : up.outcome = .error fault := by
        cases hup : up.outcome with
        | error f => simpa [hup, Except.map] using herror
        | ok l => simp [hup, Except.map] at herror
      obtain ⟨x, hreach, hx⟩ :=
        ih (memo_ensure hu hextends) (hgrows.trans hu.proper (.ensure hu.proper hextends))
          (hnames.targets p above hextends') (hmet.further hp hwhole' hextends') hup
      exact ⟨x, .head hextends' hreach, hx⟩

theorem resolve_fault (hnames : t.NamesNodes) (hparse : ∀ p, ∃ whole, t.wholeRecord p = .ok whole)
    (hu : u.Memo) (hgrows : t.GrowsTo u) (hp : p ∈ u.paths) (hplain : p.Plain t.rootName)
    (herror : (resolve u p).outcome = .error fault) : t.Causes fault := by
  rcases resolve_fault_cases hu hgrows hp herror with hclimb | ⟨rfl, hincomparable⟩
  · obtain ⟨x, -, ⟨⟨chain, rfl⟩, hcircle⟩ | hwhole⟩ :=
      climb_fault hnames hu hgrows hplain (by simp [Met]) hclimb
    · exact Tree.hasCircle_of_transGen hcircle
    · obtain ⟨whole, hparsed⟩ := hparse x
      exact absurd (hwhole.symm.trans hparsed) (by simp)
  · exact hincomparable

/-- What grows out of a tree in which names tell nodes apart has nodes at plain paths only. -/
theorem plain_of_grows (hnames : t.NamesNodes) (hgrows : t.GrowsTo u) (hp : p ∈ u.paths) :
    p.Plain t.rootName := by
  by_cases hold : p ∈ t.paths
  · exact hnames.nodes p hold
  · obtain ⟨-, -, x, q, hxq, hstep⟩ := hgrows.added_at hp hold
    exact (hnames.targets x q hxq).of_isPrefix (Path.mem_steps.1 hstep).2

theorem resolveAll_fault (hnames : t.NamesNodes)
    (hparse : ∀ p, ∃ whole, t.wholeRecord p = .ok whole) (ht : t.Memo)
    (herror : (resolveAll t).outcome = .error fault) : t.Causes fault :=
  resolveAll_fault_induction (fun _ _ _ hu hgrows hp hone =>
    resolve_fault hnames hparse hu hgrows hp (plain_of_grows hnames hgrows hp) hone) ht herror

/-- A circle lets no resolution of all nodes succeed. -/
theorem outcome_of_hasCircle (ht : t.Memo) (h : t.HasCircle) :
    ∃ fault, (resolveAll t).outcome = .error fault := by
  cases hok : (resolveAll t).outcome with
  | error fault => exact ⟨fault, rfl⟩
  | ok _ =>
      obtain ⟨n, hn, hcircle⟩ := h
      have hsound := sound_resolveAll ht
      have hp := hsound.grows.mem_paths (Tree.mem_paths.2 ⟨n, hn, rfl⟩)
      obtain ⟨r, hr⟩ := resolution_of_resolveAll ht hok hp
      have hsame := hsound.grows.sameDocuments hsound.memo.proper
      exact absurd hcircle ((hsound.memo.settled _ r hr).congr hsame.symm).climbs.not_circular

/-- With proper names, and documents that can all be read, the loop over the nodes has one run and
that ends. If it ends with a circle, some node reaches itself; and if some node reaches itself, it
ends with a circle, unless the name of a member that cannot be compared ends it before. -/
theorem resolveAll_finds_circles {apis : Fields} {rootName : String}
    (hbuild : (Tree.build (.obj apis) rootName).outcome = .ok t)
    (hnames : Tree.ProperNames rootName apis t)
    (hparse : ∀ n ∈ t.nodes, ∃ whole, t.wholeRecord n.path = .ok whole) :
    (∀ x, Sweep t 0 x ↔ x = resolveAll t) ∧
      ((∃ chain, (resolveAll t).outcome = .error (.cycle chain)) → t.HasCircle) ∧
      (t.HasCircle → (∃ chain, (resolveAll t).outcome = .error (.cycle chain)) ∨
        (resolveAll t).outcome = .error .notAName ∧ t.HasIncomparable) := by
  have ht := Tree.memo_build hbuild
  have hnodes := Tree.namesNodes_build hbuild hnames
  have hreads (p : Path) : ∃ whole, t.wholeRecord p = .ok whole := by
    by_cases hdoc : (t.nodeAt p).doc = []
    · rw [Tree.wholeRecord, hdoc]
      exact ⟨_, rfl⟩
    · have hp := Tree.path_mem_of_doc hdoc
      simpa [Tree.path_nodeAt] using hparse _ (Tree.nodeAt_mem_nodes hp)
  refine ⟨fun _ => sweep_iff ht, ?_, ?_⟩
  · rintro ⟨chain, hchain⟩
    exact resolveAll_fault hnodes hreads ht hchain
  · intro hcircle
    obtain ⟨fault, hfault⟩ := outcome_of_hasCircle ht hcircle
    have hcause := resolveAll_fault hnodes hreads ht hfault
    cases fault with
    | cycle chain => exact .inl ⟨chain, hfault⟩
    | notAName => exact .inr ⟨hfault, hcause⟩
    | _ => exact absurd hcause not_false

/-- Two types that extend each other, one of them under a name with the root's name in front. -/
def circularRecords : Fields :=
  [("A", .obj [("name", .str "A"), ("extends", .str "Global.B")]),
    ("B", .obj [("name", .str "Global.B"), ("extends", .str "A")])]

/-- The tree of `circularRecords`. -/
def circularTree : Tree :=
  ⟨"Global", "",
    [Node.blank [] false,
      ⟨["A"], [("name", .str "A"), ("extends", .str "Global.B")], false, none⟩,
      ⟨["B"], [("name", .str "Global.B"), ("extends", .str "A")], false, none⟩], []⟩

theorem resolveAll_finds_circles_circularRecords :
    (Tree.build (.obj circularRecords) "Global").outcome = .ok circularTree ∧
      Tree.ProperNames "Global" circularRecords circularTree ∧
      (∀ n ∈ circularTree.nodes, ∃ whole, circularTree.wholeRecord n.path = .ok whole) ∧
      (∀ x, Sweep circularTree 0 x ↔ x = resolveAll circularTree) ∧ circularTree.HasCircle := by
  have hbuild : (Tree.build (.obj circularRecords) "Global").outcome = .ok circularTree := by rfl
  have hnames : Tree.ProperNames "Global" circularRecords circularTree := by
    refine ⟨?_, by decide +kernel⟩
    simp only [circularRecords, List.mem_cons, List.not_mem_nil, or_false, Prod.mk.injEq,
      Json.obj.injEq]
    rintro key api (⟨-, rfl⟩ | ⟨-, rfl⟩)
    · exact ⟨"A", by decide, by simp, .inr (by decide)⟩
    · exact ⟨"Global.B", by decide, by simp, .inr (by decide)⟩
  have hparse : ∀ n ∈ circularTree.nodes,
      ∃ whole, circularTree.wholeRecord n.path = .ok whole := by
    simp only [circularTree, List.forall_mem_cons]
    exact ⟨⟨_, rfl⟩, ⟨_, rfl⟩, ⟨_, rfl⟩, by simp⟩
  obtain ⟨hends, hsound, -⟩ := resolveAll_finds_circles hbuild hnames hparse
  exact ⟨hbuild, hnames, hparse, hends, hsound ⟨["A", "Global.B", "A"], by cbv⟩⟩

/-- A method that bears a list for a name, in front of a type that extends itself. -/
def incomparableRecords : Fields :=
  [("A", .obj [("name", .str "A"), ("excludes", .obj [("methods", .arr [.str "x"])]),
      ("methods", .obj [("0", .obj [("name", .arr [.str "q"])])])]),
    ("B", .obj [("name", .str "B"), ("extends", .str "B")])]

/-- The tree of `incomparableRecords`. -/
def incomparableTree : Tree :=
  ⟨"Global", "",
    [Node.blank [] false,
      ⟨["A"], [("name", .str "A"), ("excludes", .obj [("methods", .arr [.str "x"])]),
        ("methods", .obj [("0", .obj [("name", .arr [.str "q"])])])], false, none⟩,
      ⟨["B"], [("name", .str "B"), ("extends", .str "B")], false, none⟩], []⟩

/-- A name that cannot be compared hides a circle behind it. -/
theorem circle_behind_incomparable :
    (Tree.build (.obj incomparableRecords) "Global").outcome = .ok incomparableTree ∧
      Tree.ProperNames "Global" incomparableRecords incomparableTree ∧
      (∀ n ∈ incomparableTree.nodes, ∃ whole, incomparableTree.wholeRecord n.path = .ok whole) ∧
      incomparableTree.HasCircle ∧
      ¬∃ chain, (resolveAll incomparableTree).outcome = .error (.cycle chain) := by
  refine ⟨by rfl, ⟨?_, by decide +kernel⟩, ?_, ?_, ?_⟩
  · simp only [incomparableRecords, List.mem_cons, List.not_mem_nil, or_false, Prod.mk.injEq,
      Json.obj.injEq]
    rintro key api (⟨-, rfl⟩ | ⟨-, rfl⟩)
    · exact ⟨"A", by decide, by simp, .inr (by decide)⟩
    · exact ⟨"B", by decide, by simp, .inr (by decide)⟩
  · simp only [incomparableTree, List.forall_mem_cons]
    exact ⟨⟨_, rfl⟩, ⟨_, rfl⟩, ⟨_, rfl⟩, by simp⟩
  · have hself : incomparableTree.Extends ["B"] ["B"] := by rfl
    exact Tree.hasCircle_of_transGen (.single hself)
  · -- The node in front extends nothing, and settling it meets the list.
    have heach : (resolveEach incomparableTree (pathsFrom 0 incomparableTree)).outcome =
        .error .notAName := by
      change (resolveEach incomparableTree [[], ["A"], ["B"]]).outcome = _
      rw [resolveEach, resolve_of_top rfl rfl rfl, Progress.andThen_of_ok rfl, resolveEach,
        resolve_of_top rfl rfl rfl]
      rfl
    rw [resolveAll, Progress.andThen_of_error heach]
    simp

end Exclusion

end ApiTypings
