import ApiTypings.Proofs.Exclusion.Operation
import ApiTypings.Proofs.Namespace.Below

/-!
Which nodes are synthetic.

A node is synthetic from the lookup that creates it, if that is made for an extension, until the
first lookup that is made for a record and passes it. So the flag is a matter of all lookups so far,
and `Tree.Marked` says what it comes to: the nodes without the flag are those on the way to a path
that was looked up for itself. Lookups of both kinds keep this, and so do merging and settling.

Below a synthetic node there are only synthetic nodes, since what lies on the way to a node lies on
the way to everything below it. As no record was merged into any of them, the question that decides
whether a branch is declared, which looks at all of the branch, has the flag of its node for an
answer.
-/

namespace ApiTypings

open Exclusion

namespace Tree

variable {t : Tree} {p q base : Path} {name : String} {s : Bool}

/-! ### What a lookup does to the flag -/

/-- The flag of a node after a lookup that passes it. -/
def flagAfter (t : Tree) (s : Bool) (q : Path) : Bool :=
  if q ∈ t.paths then (t.nodeAt q).synthetic && s else s

theorem flagAfter_and : (t.flagAfter s q && s) = t.flagAfter s q := by
  rw [flagAfter]
  split
  · rw [Bool.and_assoc, Bool.and_self]
  · rw [Bool.and_self]

theorem synthetic_ensureChild (t : Tree) (base : Path) (name : String) (s : Bool) (q : Path) :
    ((t.ensureChild base name s).nodeAt q).synthetic =
      if q = base ++ [name] then t.flagAfter s q else (t.nodeAt q).synthetic := by
  by_cases hmem : base ++ [name] ∈ t.paths
  · rw [ensureChild, if_pos (has_iff.2 hmem)]
    cases s with
    | true =>
        rw [if_pos rfl]
        split
        next hq => rw [flagAfter, if_pos (hq ▸ hmem), Bool.and_true]
        · rfl
    | false =>
        rw [if_neg Bool.false_ne_true,
          nodeAt_modify (f := fun n => { n with synthetic := false }) fun _ => rfl]
        by_cases hq : q = base ++ [name]
        · rw [if_pos ⟨hq, hmem⟩, if_pos hq, flagAfter, if_pos (hq ▸ hmem), Bool.and_false]
        · rw [if_neg fun h => hq h.1, if_neg hq]
  · rw [ensureChild, if_neg (mt has_iff.1 hmem)]
    by_cases hq : q = base ++ [name]
    · subst hq
      rw [if_pos rfl, flagAfter, if_neg hmem, nodeAt, List.find?_append, find?_of_not_mem hmem]
      simp [Node.blank]
    · have hne : base ++ [name] ≠ q := Ne.symm hq
      rw [if_neg hq, nodeAt, nodeAt, List.find?_append]
      cases t.nodes.find? (·.path == q) <;> simp [Node.blank, hne]

theorem mem_paths_ensureChild (t : Tree) (base : Path) (name : String) (s : Bool) (q : Path) :
    q ∈ (t.ensureChild base name s).paths ↔ q ∈ t.paths ∨ q = base ++ [name] := by
  rw [paths_ensureChild]
  split
  next hmem => exact ⟨.inl, fun h => h.elim id fun hq => hq ▸ hmem⟩
  · simp

/-- Every node on the way has the flag that one lookup gives it, and no other node is touched. -/
theorem synthetic_ensureFrom {names : List String} :
    ((ensureFrom s t base names).nodeAt q).synthetic =
      if q ∈ Path.stepsFrom base names then t.flagAfter s q else (t.nodeAt q).synthetic := by
  induction names generalizing t base with
  | nil => simp [ensureFrom, Path.stepsFrom]
  | cons name rest ih =>
      have hchild := synthetic_ensureChild t base name s q
      have hmem := mem_paths_ensureChild t base name s q
      rw [ensureFrom, ih, Path.stepsFrom]
      by_cases hq : q = base ++ [name]
      · rw [if_pos hq] at hchild
        have hagain : (t.ensureChild base name s).flagAfter s q = t.flagAfter s q := by
          rw [flagAfter, if_pos (hmem.2 (.inr hq)), hchild, flagAfter_and]
        rw [hagain, hchild, ite_self, if_pos (List.mem_cons.2 (.inl hq))]
      · rw [if_neg hq] at hchild
        have hsame : (t.ensureChild base name s).flagAfter s q = t.flagAfter s q := by
          simp only [flagAfter, hchild, hmem, hq, or_false]
        have hstep : q ∈ (base ++ [name]) :: Path.stepsFrom (base ++ [name]) rest ↔
            q ∈ Path.stepsFrom (base ++ [name]) rest := by simp [hq]
        rw [hsame, hchild, if_congr hstep rfl rfl]

theorem synthetic_ensure : ((t.ensure p s).nodeAt q).synthetic =
    if q ∈ p.steps then t.flagAfter s q else (t.nodeAt q).synthetic := synthetic_ensureFrom

/-! ### The flags of a tree on its way -/

/-- A tree in which the flags are those that lookups of some paths for themselves leave, whatever
was looked up for an extension in between: synthetic are the nodes that are not on the way to any of
these paths, and nothing was merged into them. -/
structure Marked (ps : List Path) (t : Tree) : Prop where
  proper : t.Proper
  reached : ∀ p ∈ ps, p ∈ t.paths
  synthetic : ∀ q ∈ t.paths, (t.nodeAt q).synthetic = true ↔ q ≠ [] ∧ ∀ p ∈ ps, ¬q <+: p
  hollow : ∀ q ∈ t.paths, (t.nodeAt q).synthetic = true → (t.nodeAt q).doc = []

variable {ps : List Path}

theorem marked_rooted (rootName version : String) : Marked [] (rooted rootName version) where
  proper := ⟨by simp [rooted, paths], by simp [rooted, paths, Node.blank],
    by simp [rooted, paths, Node.blank, Path.mem_steps], rfl⟩
  reached := by simp
  synthetic q hq := by
    obtain rfl : q = [] := by simpa [rooted, paths, Node.blank] using hq
    simp [rooted, nodeAt, Node.blank]
  hollow q hq := by
    obtain rfl : q = [] := by simpa [rooted, paths, Node.blank] using hq
    simp [rooted, nodeAt, Node.blank]

/-- No lookup sets the flag of a node that is there, or merges anything. -/
theorem Marked.hollow_ensure (h : t.Marked ps)
    (hflag : ((t.ensure p s).nodeAt q).synthetic = true) : ((t.ensure p s).nodeAt q).doc = [] := by
  rw [doc_nodeAt_ensure]
  by_cases hq : q ∈ t.paths
  · refine h.hollow q hq ?_
    rw [synthetic_ensure, flagAfter, if_pos hq] at hflag
    split at hflag
    · exact (Bool.and_eq_true_iff.1 hflag).1
    · exact hflag
  · rw [nodeAt_of_not_mem hq]
    rfl

/-- A lookup of a path for itself clears the flags on the way to it. -/
theorem Marked.ensure (h : t.Marked ps) (p : Path) : (t.ensure p false).Marked (ps ++ [p]) where
  proper := h.proper.ensure p false
  reached x hx := by
    rcases List.mem_append.1 hx with hx | hx
    · exact h.proper.mem_paths_ensure.2 (.inl (h.reached x hx))
    · exact List.mem_singleton.1 hx ▸ h.proper.mem_paths_ensure_self
  synthetic q hq := by
    have hlast : (∀ x ∈ ps ++ [p], ¬q <+: x) ↔ (∀ x ∈ ps, ¬q <+: x) ∧ ¬q <+: p := by
      rw [List.forall_mem_append, List.forall_mem_singleton]
    rw [synthetic_ensure, hlast]
    by_cases hstep : q ∈ p.steps
    · have hclear : t.flagAfter false q = false := by simp [flagAfter]
      have hway : q <+: p := (Path.mem_steps.1 hstep).2
      simp [hstep, hclear, hway]
    · have hold : q ∈ t.paths := (h.proper.mem_paths_ensure.1 hq).resolve_right hstep
      have hway : q ≠ [] → ¬q <+: p := fun hne hqp => hstep (Path.mem_steps.2 ⟨hne, hqp⟩)
      rw [if_neg hstep, h.synthetic q hold]
      exact ⟨fun hq => ⟨hq.1, hq.2, hway hq.1⟩, fun hq => ⟨hq.1, hq.2.1⟩⟩
  hollow _ _ := h.hollow_ensure

/-- A lookup for an extension clears no flag, and what it creates is on the way to none of the
paths, all of which are there already. -/
theorem Marked.ensure_synthetic (h : t.Marked ps) (p : Path) : (t.ensure p true).Marked ps where
  proper := h.proper.ensure p true
  reached x hx := h.proper.mem_paths_ensure.2 (.inl (h.reached x hx))
  synthetic q hq := by
    rw [synthetic_ensure]
    by_cases hold : q ∈ t.paths
    · have hkept : t.flagAfter true q = (t.nodeAt q).synthetic := by simp [flagAfter, hold]
      rw [hkept, ite_self]
      exact h.synthetic q hold
    · have hstep : q ∈ p.steps := (h.proper.mem_paths_ensure.1 hq).resolve_left hold
      have hne : q ≠ [] := (Path.mem_steps.1 hstep).1
      have hoff : ∀ x ∈ ps, ¬q <+: x := fun x hx hqx =>
        hold (h.proper.closed x (h.reached x hx) q (Path.mem_steps.2 ⟨hne, hqx⟩))
      simpa [hstep, flagAfter, hold, hne] using hoff
  hollow _ _ := h.hollow_ensure

/-- Whatever else becomes of a node, its flag says what it said, as long as nothing is merged into
a synthetic node. -/
theorem Marked.modify (h : t.Marked ps) {f : Node → Node} (hpath : ∀ n, (f n).path = n.path)
    (hflag : ∀ n, (f n).synthetic = n.synthetic)
    (hdoc : (t.nodeAt p).synthetic = true → (f (t.nodeAt p)).doc = (t.nodeAt p).doc) :
    (t.modify p f).Marked ps := by
  have hpaths : (t.modify p f).paths = t.paths := paths_modify hpath
  have hnode (q : Path) := nodeAt_modify (t := t) (p := p) hpath q
  have hsame (q : Path) : ((t.modify p f).nodeAt q).synthetic = (t.nodeAt q).synthetic := by
    rw [hnode]
    split
    next hq => rw [hflag, hq.1]
    · rfl
  refine ⟨h.proper.modify hpath, hpaths ▸ h.reached, fun q hq => ?_, fun q hq hsyn => ?_⟩
  · rw [hsame, h.synthetic q (hpaths ▸ hq)]
  · have hold : (t.nodeAt q).doc = [] := h.hollow q (hpaths ▸ hq) (hsame q ▸ hsyn)
    rw [hnode]
    split
    next hq =>
      obtain ⟨rfl, -⟩ := hq
      rw [hdoc (hsame q ▸ hsyn), hold]
    · exact hold

/-- Placing a record looks up its path for itself, and merges the record into a node that is not
synthetic any more. -/
theorem Marked.place (h : t.Marked ps) (p : Path) (doc : Fields) :
    ((t.ensure p false).modify p fun n => { n with doc }).Marked (ps ++ [p]) := by
  have hmarked := h.ensure p
  refine hmarked.modify (fun _ => rfl) (fun _ => rfl) fun hsyn => ?_
  have hoff := (hmarked.synthetic p h.proper.mem_paths_ensure_self).1 hsyn
  exact absurd List.prefix_rfl (hoff.2 p (by simp))

theorem kept_marked (ps : List Path) : Kept (Marked ps) where
  ensure p h := h.ensure_synthetic p
  settle _ _ h := h.modify (fun _ => rfl) (fun _ => rfl) fun _ => rfl

/-- Building looks up the paths of the usable records, and nothing for an extension. -/
theorem marked_build {apis : Fields} {rootName : String}
    (h : (build (.obj apis) rootName).outcome = .ok t) :
    t.Marked ((placements rootName apis).map Prod.fst) := by
  refine build_induction (P := fun placed t => t.Marked (placed.map Prod.fst)) ?_
    (marked_rooted rootName) h
  intro placed t p api doc hmarked _
  rw [List.map_append]
  exact hmarked.place p doc

/-! ### Placeholders -/

section Nodes

variable {n m : Node}

theorem Marked.flag (h : t.Marked ps) (hn : n ∈ t.nodes) :
    n.synthetic = true ↔ n.path ≠ [] ∧ ∀ p ∈ ps, ¬n.path <+: p := by
  have hflag := h.synthetic n.path (mem_paths.2 ⟨n, hn, rfl⟩)
  rwa [nodeAt_path h.proper.nodup hn] at hflag

theorem Marked.doc (h : t.Marked ps) (hn : n ∈ t.nodes) (hsyn : n.synthetic = true) :
    n.doc = [] := by
  have hdoc := h.hollow n.path (mem_paths.2 ⟨n, hn, rfl⟩)
  rw [nodeAt_path h.proper.nodup hn] at hdoc
  exact hdoc hsyn

/-- The children of a synthetic node are synthetic, since what is on the way to a child is on the
way to its parent. -/
theorem Marked.child (h : t.Marked ps) (hn : n ∈ t.nodes) (hsyn : n.synthetic = true)
    (hm : m ∈ t.childrenOf n.path) : m ∈ t.nodes ∧ m.synthetic = true := by
  obtain ⟨hmem, hchild⟩ := List.mem_filter.1 hm
  have hway : n.path <+: m.path := Path.isPrefix_of_isChildOf hchild
  obtain ⟨hne, hoff⟩ := (h.flag hn).1 hsyn
  refine ⟨hmem, (h.flag hmem).2 ⟨?_, fun p hp hmp => hoff p hp (hway.trans hmp)⟩⟩
  intro hnil
  exact hne (List.prefix_nil.1 (hnil ▸ hway))

theorem Marked.walk (h : t.Marked ps) (hn : n ∈ t.nodes) (hsyn : n.synthetic = true) :
    ∀ m ∈ t.walk n, m.synthetic = true := by
  induction n using below_induction (t := t) with
  | h n ih =>
      intro m hm
      rw [Tree.walk, branch_eq, Branch.preorder, List.mem_cons, Branch.mem_preorderAll] at hm
      rcases hm with rfl | ⟨b, hb, hm⟩
      · exact hsyn
      · obtain ⟨c, hc, rfl⟩ := List.mem_map.1 hb
        obtain ⟨hmem, hchild⟩ := h.child hn hsyn hc
        exact ih c hc hmem hchild m hm

/-- The branch at a node is a placeholder just if the node is synthetic. -/
theorem Marked.isPlaceholder (h : t.Marked ps) (hn : n ∈ t.nodes) :
    (t.branch n).isPlaceholder = n.synthetic := by
  induction n using below_induction (t := t) with
  | h n ih =>
      rw [branch_eq, Branch.isPlaceholder]
      cases hsyn : n.synthetic with
      | false => rfl
      | true =>
          have hchildren :
              Branch.arePlaceholders ((t.childrenOf n.path).map t.branch) = true := by
            refine Branch.arePlaceholders_iff.2 fun b hb => ?_
            obtain ⟨c, hc, rfl⟩ := List.mem_map.1 hb
            obtain ⟨hmem, hchild⟩ := h.child hn hsyn hc
            rw [ih c hc hmem, hchild]
          rw [h.doc hn hsyn, hchildren]
          rfl

end Nodes

/-- A tree whose flags tell which nodes the placed records account for: synthetic are the nodes, the
root apart, that are not on the way to a record; they hold no document, nor does anything below
them, which is all synthetic; and to be declared as a placeholder is to be synthetic. -/
structure TellsSynthetic (placed : List (Path × Fields)) (t : Tree) : Prop where
  flag : ∀ n ∈ t.nodes, n.synthetic = true ↔ n.path ≠ [] ∧ ∀ r ∈ placed, ¬n.path <+: r.1
  hollow : ∀ n ∈ t.nodes, n.synthetic = true → n.doc = [] ∧ ∀ m ∈ t.walk n, m.synthetic = true
  placeholder : ∀ n ∈ t.nodes, (t.branch n).isPlaceholder = n.synthetic

/-- The flags of a built tree are exact after any requests, whether or not these succeed. -/
theorem tellsSynthetic_performAll {apis : Fields} {rootName : String}
    (hbuild : (build (.obj apis) rootName).outcome = .ok t) (requests : List Request) :
    (performAll t requests).TellsSynthetic (placements rootName apis) := by
  have h := kept_performAll (kept_marked _) (marked_build hbuild) requests
  refine ⟨fun n hn => ?_, fun n hn hsyn => ⟨h.doc hn hsyn, h.walk hn hsyn⟩,
    fun n hn => h.isPlaceholder hn⟩
  rw [h.flag hn, List.forall_mem_map]

/-- A type that extends one in a namespace beside it, and one that extends the namespace that the
first type is in, which has no record of its own. -/
def besideRecords : Fields :=
  [("A.B", .obj [("name", .str "A.B"), ("extends", .str "A.C.D")]),
    ("G", .obj [("name", .str "G"), ("extends", .str "A")])]

/-- The tree of `besideRecords`. -/
def besideTree : Tree :=
  ⟨"Global", "",
    [Node.blank [] false, Node.blank ["A"] false,
      ⟨["A", "B"], [("name", .str "A.B"), ("extends", .str "A.C.D")], false, none⟩,
      ⟨["G"], [("name", .str "G"), ("extends", .str "A")], false, none⟩], []⟩

theorem tellsSynthetic_performAll_besideRecords :
    (build (.obj besideRecords) "Global").outcome = .ok besideTree ∧
      (resolveAll besideTree).outcome = .ok () ∧
      (performAll besideTree [.all]).nodes.map (fun n => (n.path, n.synthetic)) =
        [([], false), (["A"], false), (["A", "B"], false), (["G"], false), (["A", "C"], true),
          (["A", "C", "D"], true)] ∧
      (performAll besideTree [.all]).TellsSynthetic (placements "Global" besideRecords) := by
  have hbuild : (build (.obj besideRecords) "Global").outcome = .ok besideTree := by rfl
  have hresolved := show resolveAll besideTree = _ by cbv
  refine ⟨hbuild, by rw [hresolved], ?_, tellsSynthetic_performAll hbuild [.all]⟩
  have hrun : performAll besideTree [.all] = (resolveAll besideTree).tree := rfl
  rw [hrun, hresolved]
  rfl

end Tree

end ApiTypings
