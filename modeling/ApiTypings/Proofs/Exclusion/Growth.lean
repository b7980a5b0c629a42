import ApiTypings.Proofs.Exclusion.Inheritance

/-!
How a tree grows while exclusions are resolved.

Resolving never takes anything back. A node keeps its place, its document and, once it has one, its
resolution; what is added is synthetic, has no document, and lies on the way to a path that some
node extends. `Tree.GrowsTo` says so position by position, for one step or for many, whether the
last of them failed or not.
-/

namespace ApiTypings

/-- A node that is another one, but for a resolution that the other may lack. -/
structure Node.Keeps (n m : Node) : Prop where
  path : m.path = n.path
  doc : m.doc = n.doc
  synthetic : m.synthetic = n.synthetic
  resolution : ∀ r, n.resolution = some r → m.resolution = some r

namespace Tree

variable {t u v : Tree} {p q : Path}

/-! ### Proper trees -/

/-- A tree as building leaves it: no path occurs twice, what lies on the way to a node is a node
too, the root among them, and no node is spelled below a position from the end. -/
structure Proper (t : Tree) : Prop where
  nodup : t.paths.Nodup
  root : [] ∈ t.paths
  closed : ∀ p ∈ t.paths, ∀ q ∈ p.steps, q ∈ t.paths
  fromEnd : t.fromEnd = []

theorem Proper.paths_ensure (h : t.Proper) (p : Path) (s : Bool) :
    (t.ensure p s).paths = (t.paths ++ p.steps).eraseDups :=
  Tree.paths_ensure (eraseDups_of_nodup h.nodup).symm p

theorem Proper.mem_paths_ensure (h : t.Proper) {s : Bool} :
    q ∈ (t.ensure p s).paths ↔ q ∈ t.paths ∨ q ∈ p.steps := by
  rw [h.paths_ensure, List.mem_eraseDups, List.mem_append]

theorem Proper.ensure (h : t.Proper) (p : Path) (s : Bool) : (t.ensure p s).Proper where
  nodup := h.paths_ensure p s ▸ nodup_eraseDups _
  root := h.mem_paths_ensure.2 (.inl h.root)
  closed x hx y hy := by
    rcases h.mem_paths_ensure.1 hx with hx | hx
    · exact h.mem_paths_ensure.2 (.inl (h.closed x hx y hy))
    · obtain ⟨hne, hyx⟩ := Path.mem_steps.1 hy
      exact h.mem_paths_ensure.2
        (.inr (Path.mem_steps.2 ⟨hne, hyx.trans (Path.mem_steps.1 hx).2⟩))
  fromEnd := (fromEnd_ensure t p s).trans h.fromEnd

theorem Proper.mem_paths_ensure_self (h : t.Proper) {s : Bool} : p ∈ (t.ensure p s).paths := by
  by_cases hp : p = []
  · exact hp ▸ (h.ensure p s).root
  · exact h.mem_paths_ensure.2 (.inr (Path.mem_steps_self hp))

theorem Proper.modify (h : t.Proper) {f : Node → Node} (hf : ∀ n, (f n).path = n.path) :
    (t.modify p f).Proper := by
  have hpaths := paths_modify (t := t) (p := p) hf
  exact ⟨hpaths ▸ h.nodup, hpaths ▸ h.root, hpaths ▸ h.closed, h.fromEnd⟩

/-! ### Growth -/

/-- A tree that another one becomes while exclusions are resolved. -/
structure GrowsTo (t u : Tree) : Prop where
  rootName : u.rootName = t.rootName
  fromEnd : u.fromEnd = t.fromEnd
  kept : ∀ (i : Nat) (n : Node), t.nodes[i]? = some n → ∃ m, u.nodes[i]? = some m ∧ n.Keeps m
  added : ∀ (i : Nat) (m : Node), t.nodes[i]? = none → u.nodes[i]? = some m →
    m.synthetic = true ∧ m.doc = [] ∧ ∃ p q, t.Extends p q ∧ m.path ∈ q.steps

theorem GrowsTo.mem_paths (h : t.GrowsTo u) (hp : p ∈ t.paths) : p ∈ u.paths := by
  obtain ⟨n, hn, rfl⟩ := Tree.mem_paths.1 hp
  obtain ⟨i, hi⟩ := List.mem_iff_getElem?.1 hn
  obtain ⟨m, hm, hkeeps⟩ := h.kept i n hi
  exact Tree.mem_paths.2 ⟨m, List.mem_of_getElem? hm, hkeeps.path⟩

/-- The node at a path keeps what it has. -/
theorem GrowsTo.keeps (h : t.GrowsTo u) (hu : u.Proper) (hp : p ∈ t.paths) :
    (t.nodeAt p).Keeps (u.nodeAt p) := by
  obtain ⟨i, hi⟩ := List.mem_iff_getElem?.1 (nodeAt_mem_nodes hp)
  obtain ⟨m, hm, hkeeps⟩ := h.kept i _ hi
  have hpath : m.path = p := hkeeps.path.trans (path_nodeAt t p)
  rwa [← hpath, nodeAt_path hu.nodup (List.mem_of_getElem? hm), hpath]

/-- A path that is new belongs to a synthetic node without a document, on the way to a path that
some node extends. -/
theorem GrowsTo.added_at (h : t.GrowsTo u) (hp : p ∈ u.paths) (hnew : p ∉ t.paths) :
    (u.nodeAt p).synthetic = true ∧ (u.nodeAt p).doc = [] ∧
      ∃ x q, t.Extends x q ∧ p ∈ q.steps := by
  obtain ⟨i, hi⟩ := List.mem_iff_getElem?.1 (nodeAt_mem_nodes hp)
  have hnone : t.nodes[i]? = none := by
    cases hn : t.nodes[i]? with
    | none => rfl
    | some n =>
        obtain ⟨m, hm, hkeeps⟩ := h.kept i n hn
        obtain rfl := Option.some.inj (hi.symm.trans hm)
        have hpath : n.path = p := hkeeps.path.symm.trans (path_nodeAt u p)
        exact absurd (Tree.mem_paths.2 ⟨n, List.mem_of_getElem? hn, hpath⟩) hnew
  have hadded := h.added i _ hnone hi
  rwa [path_nodeAt] at hadded

theorem GrowsTo.sameDocuments (h : t.GrowsTo u) (hu : u.Proper) : SameDocuments t u where
  rootName := h.rootName
  fullName p := by
    rw [fullName_of_fromEnd hu.fromEnd, fullName_of_fromEnd (h.fromEnd.symm.trans hu.fromEnd),
      h.rootName]
  doc p := by
    by_cases hp : p ∈ t.paths
    · exact (h.keeps hu hp).doc
    · rw [nodeAt_of_not_mem hp]
      by_cases hpu : p ∈ u.paths
      · exact (h.added_at hpu hp).2.1
      · rw [nodeAt_of_not_mem hpu]

theorem GrowsTo.resolution (h : t.GrowsTo u) (hu : u.Proper) {r : Resolution}
    (hr : (t.nodeAt p).resolution = some r) : (u.nodeAt p).resolution = some r :=
  (h.keeps hu (path_mem_of_resolution hr)).resolution r hr

theorem GrowsTo.refl (t : Tree) : t.GrowsTo t where
  rootName := rfl
  fromEnd := rfl
  kept _ n hn := ⟨n, hn, rfl, rfl, rfl, fun _ hr => hr⟩
  added _ _ hnone hsome := absurd (hnone.symm.trans hsome) (by simp)

theorem GrowsTo.trans (h : t.GrowsTo u) (hu : u.Proper) (h' : u.GrowsTo v) : t.GrowsTo v where
  rootName := h'.rootName.trans h.rootName
  fromEnd := h'.fromEnd.trans h.fromEnd
  kept i n hn := by
    obtain ⟨m, hm, hnm⟩ := h.kept i n hn
    obtain ⟨k, hk, hmk⟩ := h'.kept i m hm
    exact ⟨k, hk, hmk.path.trans hnm.path, hmk.doc.trans hnm.doc,
      hmk.synthetic.trans hnm.synthetic, fun r hr => hmk.resolution r (hnm.resolution r hr)⟩
  added i k hnone hk := by
    cases hm : u.nodes[i]? with
    | none =>
        obtain ⟨hsynthetic, hdoc, x, y, hxy, hstep⟩ := h'.added i k hm hk
        exact ⟨hsynthetic, hdoc, x, y, (h.sameDocuments hu).extends_iff.1 hxy, hstep⟩
    | some m =>
        obtain ⟨hsynthetic, hdoc, hstep⟩ := h.added i m hnone hm
        obtain ⟨k', hk', hmk⟩ := h'.kept i m hm
        obtain rfl := Option.some.inj (hk.symm.trans hk')
        exact ⟨hmk.synthetic.trans hsynthetic, hmk.doc.trans hdoc, hmk.path ▸ hstep⟩

/-- Making sure of the path that a node extends lets the tree grow. -/
theorem GrowsTo.ensure (ht : t.Proper) (h : t.Extends p q) : t.GrowsTo (t.ensure q true) := by
  obtain ⟨added, hnodes, hblank⟩ := nodes_ensure_synthetic t q
  have hpaths : (t.ensure q true).paths = t.paths ++ added.map Node.path := by
    rw [paths, hnodes, List.map_append, ← paths]
  refine ⟨rootName_ensure t q true, fromEnd_ensure t q true, ?_, ?_⟩
  · intro i n hn
    refine ⟨n, ?_, rfl, rfl, rfl, fun _ hr => hr⟩
    rw [hnodes, List.getElem?_append_left (List.getElem?_eq_some_iff.1 hn).1, hn]
  · intro i m hnone hm
    rw [hnodes, List.getElem?_append_right (List.getElem?_eq_none_iff.1 hnone)] at hm
    have hmem := List.mem_of_getElem? hm
    have hpath : m.path ∈ added.map Node.path := List.mem_map_of_mem hmem
    -- An added node has a path of its own, since no path occurs twice.
    have hnew : m.path ∉ t.paths := by
      have hnodup := (ht.ensure q true).nodup
      rw [hpaths] at hnodup
      exact fun hold => (List.nodup_append.1 hnodup).2.2 _ hold _ hpath rfl
    have hstep : m.path ∈ q.steps := by
      have hin : m.path ∈ (t.ensure q true).paths := hpaths ▸ List.mem_append_right _ hpath
      exact (ht.mem_paths_ensure.1 hin).resolve_left hnew
    exact ⟨congrArg Node.synthetic (hblank m hmem), congrArg Node.doc (hblank m hmem), p, q, h,
      hstep⟩

/-- Settling a node lets the tree grow, if the node is not settled otherwise. -/
theorem GrowsTo.settle (ht : t.Proper) {r : Resolution}
    (hr : ∀ r', (t.nodeAt p).resolution = some r' → r' = r) :
    t.GrowsTo (t.modify p fun n => { n with resolution := some r }) := by
  have hget (i : Nat) : (t.modify p fun n => { n with resolution := some r }).nodes[i]? =
      (t.nodes[i]?).map fun n => if n.path = p then { n with resolution := some r } else n := by
    simp [Tree.modify]
  refine ⟨rfl, rfl, ?_, ?_⟩
  · intro i n hn
    rw [hget, hn, Option.map_some]
    refine ⟨_, rfl, ?_⟩
    split
    next hpath =>
      refine ⟨rfl, rfl, rfl, fun r' hr' => ?_⟩
      have hn' : t.nodeAt p = n := hpath ▸ nodeAt_path ht.nodup (List.mem_of_getElem? hn)
      rw [hr r' (hn'.symm ▸ hr')]
    · exact ⟨rfl, rfl, rfl, fun _ hr' => hr'⟩
  · intro i m hnone hm
    rw [hget, hnone] at hm
    simp at hm

end Tree

end ApiTypings
