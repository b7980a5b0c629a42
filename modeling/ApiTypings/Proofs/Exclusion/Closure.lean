import ApiTypings.Proofs.Exclusion.Settling
import ApiTypings.Proofs.Namespace.Refinement

/-!
All nodes resolved.

If resolving all nodes of a built tree succeeds, then every node of the resulting tree is settled,
the nodes that were added on the way included, and holds what its documents prescribe: the
exclusions of all that it extends and the members that these leave. The second round, over the
added nodes, cannot add more of them, because they have no documents and extend nothing.
-/

namespace ApiTypings

open Exclusion

/-! ### Built trees -/

namespace Tree

variable {rootName : String} {placed : List (Path × Fields)} {t : Tree}

theorem Mirrors.mem_paths (h : Mirrors rootName placed t) {p : Path} :
    p ∈ t.paths ↔ p = [] ∨ ∃ r ∈ placed, p ∈ r.1.steps := by
  rw [h.paths, List.mem_eraseDups, List.mem_cons, mentions, List.mem_flatMap]

theorem Mirrors.proper (h : Mirrors rootName placed t) : t.Proper where
  nodup := h.paths ▸ nodup_eraseDups _
  root := h.root_mem
  closed p hp q hq := by
    obtain ⟨hne, hqp⟩ := Path.mem_steps.1 hq
    rcases h.mem_paths.1 hp with rfl | ⟨r, hr, hpr⟩
    · exact absurd (List.prefix_nil.1 hqp) hne
    · have hstep : q ∈ r.1.steps :=
        Path.mem_steps.2 ⟨hne, hqp.trans (Path.mem_steps.1 hpr).2⟩
      exact h.mem_paths.2 (.inr ⟨r, hr, hstep⟩)
  fromEnd := h.fromEnd

/-- A tree is in order once it is built, since nothing in it is settled. -/
theorem memo_build {apis : Fields} (h : (build (.obj apis) rootName).outcome = .ok t) :
    t.Memo := by
  have hm := mirrors_build h
  refine ⟨hm.proper, ?_, ?_⟩
  · intro p r hr
    simp [hm.resolution] at hr
  · intro p q r hr
    simp [hm.resolution] at hr

end Tree

namespace Exclusion

variable {t : Tree} {p : Path}

/-! ### Nodes that extend nothing -/

theorem paths_settleOne (t : Tree) (p : Path) (record : TypeRecord) (inherited : Exclusions) :
    (settleOne t p record inherited).tree.paths = t.paths := by
  unfold settleOne
  dsimp only
  split
  · rfl
  next left _ =>
    exact Tree.paths_modify
      (f := fun n => { n with resolution := some ⟨left, (ownOf record).union inherited⟩ })
      fun _ => rfl

theorem paths_settle (t : Tree) (pending : List (Path × TypeRecord)) (inherited : Exclusions) :
    (settle t pending inherited).tree.paths = t.paths := by
  induction pending generalizing t inherited with
  | nil => rfl
  | cons entry rest ih =>
      obtain ⟨p, record⟩ := entry
      have hone := paths_settleOne t p record inherited
      rw [settle]
      cases hok : (settleOne t p record inherited).outcome with
      | error fault => rw [Progress.andThen_of_error hok, hone]
      | ok passed => rw [Progress.andThen_of_ok hok, ih, hone]

theorem tree_climb_of_top (htop : t.extended? p = none) (met : List String) :
    (climb t p met).tree = t := by
  fun_cases climb t p met with
  | case5 hresolution record hwhole hmet target htarget =>
      exact absurd (htop.symm.trans (extends_of_record hwhole htarget)) (by simp)
  | case6 hresolution record hwhole hmet target htarget =>
      exact absurd (htop.symm.trans (extends_of_record hwhole htarget)) (by simp)
  | _ => rfl

/-- Resolving a node that extends nothing adds no node. -/
theorem paths_resolve_of_top (htop : t.extended? p = none) :
    (resolve t p).tree.paths = t.paths := by
  have hclimb := tree_climb_of_top htop []
  rw [resolve]
  cases hok : (climb t p []).outcome with
  | error fault => rw [Progress.andThen_of_error hok, hclimb]
  | ok l => rw [Progress.andThen_of_ok hok, paths_settle, hclimb]

/-- A node that extends nothing is settled at once. -/
theorem resolve_of_top {whole : TypeRecord} (hnone : (t.nodeAt p).resolution = none)
    (hwhole : t.wholeRecord p = .ok whole) (htop : whole.extends? = none) :
    resolve t p = settle t [(p, whole)] .empty := by
  have hclimb : climb t p [] = ⟨t, [], .ok ⟨[(p, whole)], .empty⟩⟩ := by
    fun_cases climb t p [] with
    | case1 settled hsome => cases hnone.symm.trans hsome
    | case2 _ fault hfault => cases hwhole.symm.trans hfault
    | case3 _ record _ hmet => exact absurd hmet List.not_mem_nil
    | case4 _ record hrecord =>
      obtain rfl := Except.ok.inj (hwhole.symm.trans hrecord)
      rfl
    | case5 _ record hrecord _ target htarget | case6 _ record hrecord _ target htarget =>
      obtain rfl := Except.ok.inj (hwhole.symm.trans hrecord)
      cases htop.symm.trans htarget
  rw [resolve, hclimb, Progress.andThen_of_ok rfl]
  rfl

theorem paths_resolveEach_of_docs_nil {ps : List Path} (h : t.Memo)
    (hps : ∀ p ∈ ps, p ∈ t.paths ∧ (t.nodeAt p).doc = []) :
    (resolveEach t ps).tree.paths = t.paths := by
  induction ps generalizing t with
  | nil => rfl
  | cons p rest ih =>
      obtain ⟨⟨hp, hdoc⟩, hrest⟩ := List.forall_mem_cons.1 hps
      have hone := (resolve_spec h hp).1
      have hpaths := paths_resolve_of_top (Tree.extended?_of_doc_nil hdoc)
      rw [resolveEach]
      cases hok : (resolve t p).outcome with
      | error fault => rw [Progress.andThen_of_error hok, hpaths]
      | ok e =>
          rw [Progress.andThen_of_ok hok, ih hone.memo, hpaths]
          intro q hq
          obtain ⟨hq, hqdoc⟩ := hrest q hq
          have hsame := hone.grows.sameDocuments hone.memo.proper
          exact ⟨hpaths ▸ hq, (hsame.doc q).trans hqdoc⟩

/-! ### The end of a resolution -/

/-- What a first resolution added has no document. -/
theorem mem_pathsFrom_added {u : Tree} (hgrows : t.GrowsTo u) (hu : u.Proper)
    (hp : p ∈ pathsFrom t.size u) : p ∈ u.paths ∧ (u.nodeAt p).doc = [] := by
  obtain ⟨m, hm, rfl⟩ := List.mem_map.1 hp
  obtain ⟨j, hj⟩ := List.mem_iff_getElem?.1 hm
  rw [List.getElem?_drop] at hj
  have hnone : t.nodes[t.size + j]? = none := List.getElem?_eq_none (Nat.le_add_right _ _)
  have hmem := List.mem_of_getElem? hj
  refine ⟨Tree.mem_paths.2 ⟨m, hmem, rfl⟩, ?_⟩
  rw [Tree.nodeAt_path hu.nodup hmem]
  exact (hgrows.added _ m hnone hj).2.1

/-- A node of the grown tree is one of the first nodes or was added. -/
theorem mem_pathsFrom_of_grows {u : Tree} (hgrows : t.GrowsTo u) (hp : p ∈ u.paths) :
    p ∈ t.paths ∨ p ∈ pathsFrom t.size u := by
  obtain ⟨m, hm, rfl⟩ := Tree.mem_paths.1 hp
  obtain ⟨i, hi⟩ := List.mem_iff_getElem?.1 hm
  by_cases hlt : i < t.size
  · left
    obtain ⟨m', hm', hkeeps⟩ := hgrows.kept i _ (List.getElem?_eq_getElem hlt)
    obtain rfl := Option.some.inj (hi.symm.trans hm')
    exact Tree.mem_paths.2 ⟨_, List.getElem_mem hlt, hkeeps.path.symm⟩
  · right
    refine List.mem_map.2 ⟨m, List.mem_iff_getElem?.2 ⟨i - t.size, ?_⟩, rfl⟩
    rw [List.getElem?_drop, Nat.add_sub_cancel' (Nat.le_of_not_lt hlt), hi]

/-- If resolving all nodes succeeds, all nodes are settled, those that were added included. -/
theorem resolution_of_resolveAll (h : t.Memo) (hok : (resolveAll t).outcome = .ok ())
    (hp : p ∈ (resolveAll t).tree.paths) :
    ∃ r, ((resolveAll t).tree.nodeAt p).resolution = some r := by
  obtain ⟨hfirst, hdone⟩ := resolveEach_spec h fun _ hq => mem_paths_of_mem_pathsFrom (t := t) hq
  rw [resolveAll] at hok hp ⊢
  cases hok₁ : (resolveEach t (pathsFrom 0 t)).outcome with
  | error fault => simp [Progress.andThen_of_error hok₁] at hok
  | ok _ =>
      rw [Progress.andThen_of_ok hok₁] at hok hp ⊢
      generalize resolveEach t (pathsFrom 0 t) = first at *
      have hadded (q : Path) (hq : q ∈ pathsFrom t.size first.tree) :=
        mem_pathsFrom_added hfirst.grows hfirst.memo.proper hq
      obtain ⟨hsecond, hdone'⟩ := resolveEach_spec hfirst.memo fun q hq => (hadded q hq).1
      -- The second round adds nothing, so each path is one of those after the first.
      dsimp only at hp ⊢
      rw [paths_resolveEach_of_docs_nil hfirst.memo hadded] at hp
      rcases mem_pathsFrom_of_grows hfirst.grows hp with hold | hnew
      · obtain ⟨r, hr⟩ := hdone hok₁ p (by simpa [pathsFrom, Tree.paths] using hold)
        exact ⟨r, hsecond.grows.resolution hsecond.memo.proper hr⟩
      · exact hdone' hok p hnew

/-- Once all nodes of a built tree are resolved, every node holds what the documents prescribe for
it, and excludes what the node that it extends excludes. -/
theorem prescribes_of_resolveAll {apis : Fields} {rootName : String}
    (hbuild : (Tree.build (.obj apis) rootName).outcome = .ok t)
    (hok : (resolveAll t).outcome = .ok ()) :
    ∀ n ∈ (resolveAll t).tree.nodes, ∃ r, n.resolution = some r ∧
      (resolveAll t).tree.Prescribes n.path r ∧
      ∀ m ∈ (resolveAll t).tree.nodes, ∀ above, (resolveAll t).tree.Extends n.path m.path →
        m.resolution = some above → above.excluded.methods ⊆ r.excluded.methods ∧
          above.excluded.properties ⊆ r.excluded.properties := by
  have h := Tree.memo_build hbuild
  have hmemo := (sound_resolveAll h).memo
  have hnode (n : Node) (hn : n ∈ (resolveAll t).tree.nodes) :=
    Tree.nodeAt_path hmemo.proper.nodup hn
  intro n hn
  obtain ⟨r, hr⟩ := resolution_of_resolveAll h hok (Tree.mem_paths.2 ⟨n, hn, rfl⟩)
  have hprescribes := (hmemo.settled _ r hr).prescribes
  refine ⟨r, hnode n hn ▸ hr, hprescribes, ?_⟩
  intro m hm above hnm habove
  rw [← hnode m hm] at habove
  have hprescribed := (hmemo.settled _ above habove).prescribes
  obtain ⟨whole, hwhole, -⟩ := hprescribes.record
  constructor
  · intro name hname
    have hm := (hprescribed.methods name).1 hname
    exact (hprescribes.methods name).2 ((Tree.excludes_iff hwhole).2 (.inr ⟨_, hnm, hm⟩))
  · intro name hname
    have hm := (hprescribed.properties name).1 hname
    exact (hprescribes.properties name).2 ((Tree.excludes_iff hwhole).2 (.inr ⟨_, hnm, hm⟩))

/-- A type that extends another one, which in turn extends one that has no record. -/
def inheritingRecords : Fields :=
  [("A", .obj [("name", .str "A"), ("extends", .str "B"),
      ("excludes", .obj [("methods", .arr [.str "f"])]),
      ("methods", .arr [.obj [("name", .str "f")], .obj [("name", .str "g")]])]),
    ("B", .obj [("name", .str "B"), ("extends", .str "Missing.C"),
      ("excludes", .obj [("methods", .arr [.str "g"]), ("properties", .arr [.str "p"])])])]

/-- The tree of `inheritingRecords`. -/
def inheritingTree : Tree :=
  ⟨"Global", "",
    [Node.blank [] false,
      ⟨["A"], [("name", .str "A"), ("extends", .str "B"),
        ("excludes", .obj [("methods", .arr [.str "f"])]),
        ("methods", .arr [.obj [("name", .str "f")], .obj [("name", .str "g")]])], false, none⟩,
      ⟨["B"], [("name", .str "B"), ("extends", .str "Missing.C"),
        ("excludes", .obj [("methods", .arr [.str "g"]), ("properties", .arr [.str "p"])])],
        false, none⟩], []⟩

theorem prescribes_of_resolveAll_inheritingRecords :
    (Tree.build (.obj inheritingRecords) "Global").outcome = .ok inheritingTree ∧
      (resolveAll inheritingTree).outcome = .ok () ∧
      ∀ n ∈ (resolveAll inheritingTree).tree.nodes, ∃ r, n.resolution = some r ∧
        (resolveAll inheritingTree).tree.Prescribes n.path r := by
  have hbuild : (Tree.build (.obj inheritingRecords) "Global").outcome = .ok inheritingTree := by
    rfl
  have hok : (resolveAll inheritingTree).outcome = .ok () := by cbv
  refine ⟨hbuild, hok, ?_⟩
  intro n hn
  obtain ⟨r, hr, hprescribes, -⟩ := prescribes_of_resolveAll hbuild hok n hn
  exact ⟨r, hr, hprescribes⟩

end Exclusion

end ApiTypings
