import ApiTypings.Proofs.Namespace.Below

/-!
A tree without one of its top-level names.

Leaving out everything under a name of the top level goes well with whatever is done to a tree. What
is done outside of the name can be done before or after it, and what is done inside makes no
difference. What is declared outside of the name is the same.
-/

namespace ApiTypings

/-! ### Paths under a name -/

namespace Path

/-- Whether a path starts with a segment. -/
def isUnder (s : String) (p : Path) : Bool := p.head? == some s

variable {s : String} {p q : Path}

theorem isUnder_nil (s : String) : isUnder s [] = false := rfl

theorem isUnder_cons (s : String) (p : Path) : isUnder s (s :: p) = true := by simp [isUnder]

theorem isUnder_append (hp : p ≠ []) (q : Path) : isUnder s (p ++ q) = isUnder s p := by
  rw [isUnder, isUnder, List.head?_append_of_ne_nil _ hp]

theorem eq_of_isUnder (hp : isChildOf [] p = true) (hs : p.isUnder s = true) : p = [s] := by
  obtain ⟨x, rfl⟩ := List.length_eq_one_iff.1 (length_of_isChildOf hp)
  simpa [isUnder] using hs

theorem isUnder_of_mem_steps (hp : p ∈ q.steps) : isUnder s p = isUnder s q := by
  obtain ⟨hne, rest, rfl⟩ := mem_steps.1 hp
  exact (isUnder_append hne rest).symm

theorem isUnder_of_isChildOf (hp : p ≠ []) (hq : p.isChildOf q = true) :
    isUnder s q = isUnder s p :=
  (isUnder_of_mem_steps (mem_steps.2 ⟨hp, isPrefix_of_isChildOf hq⟩)).symm

end Path

namespace Tree

/-- A tree without the nodes at and below a name of the top level. -/
def without (t : Tree) (s : String) : Tree :=
  { t with nodes := t.nodes.filter fun n => !n.path.isUnder s }

variable {t : Tree} {s name : String} {p q : Path}

@[simp] theorem rootName_without (t : Tree) (s : String) :
    (t.without s).rootName = t.rootName := rfl

@[simp] theorem fromEnd_without (t : Tree) (s : String) : (t.without s).fromEnd = t.fromEnd := rfl

@[simp] theorem version_without (t : Tree) (s : String) : (t.without s).version = t.version := rfl

theorem paths_without (t : Tree) (s : String) :
    (t.without s).paths = t.paths.filter fun p => !p.isUnder s := by
  rw [paths, paths, without, List.filter_map]
  rfl

theorem mem_paths_without : p ∈ (t.without s).paths ↔ p ∈ t.paths ∧ p.isUnder s = false := by
  rw [paths_without, List.mem_filter, Bool.not_eq_true']

theorem without_of_outside (h : ∀ p ∈ t.paths, p.isUnder s = false) : t.without s = t := by
  have hnodes : t.nodes.filter (fun n => !n.path.isUnder s) = t.nodes := by
    refine List.filter_eq_self.2 fun n hn => ?_
    rw [h n.path (mem_paths.2 ⟨n, hn, rfl⟩), Bool.not_false]
  rw [without, hnodes]

theorem nodeAt_without (hp : p.isUnder s = false) : (t.without s).nodeAt p = t.nodeAt p := by
  have hfind : (fun n : Node => decide ((!n.path.isUnder s) = true ∧ (n.path == p) = true)) =
      fun n => n.path == p := by
    funext n
    by_cases hn : n.path = p
    · simp [hn, hp]
    · simp [hn]
  rw [nodeAt, nodeAt, without, List.find?_filter, hfind]

theorem has_without (hp : p.isUnder s = false) : (t.without s).has p = t.has p := by
  rw [Bool.eq_iff_iff, has_iff, has_iff, mem_paths_without, hp]
  simp

/-! ### Changes -/

theorem without_modify {f : Node → Node} (hf : ∀ n, (f n).path = n.path) :
    (t.modify p f).without s = (t.without s).modify p f := by
  have hpath (n : Node) : (if n.path = p then f n else n).path = n.path := by
    split
    · exact hf n
    · rfl
  simp only [without, modify, List.filter_map, Function.comp_def, hpath]

theorem modify_of_not_mem {f : Node → Node} (hp : p ∉ t.paths) : t.modify p f = t := by
  have hnodes : t.nodes.map (fun n => if n.path = p then f n else n) = t.nodes.map id := by
    refine List.map_congr_left fun n hn => ?_
    rw [if_neg fun h => hp (mem_paths.2 ⟨n, hn, h⟩)]
    rfl
  rw [modify, hnodes, List.map_id]

/-- What is done to a node that is left out makes no difference. -/
theorem without_modify_inside {f : Node → Node} (hf : ∀ n, (f n).path = n.path)
    (hp : p.isUnder s = true) : (t.modify p f).without s = t.without s := by
  rw [without_modify hf, modify_of_not_mem]
  simp [mem_paths_without, hp]

theorem without_ensureChild (b : Bool) (hp : (p ++ [name]).isUnder s = false) :
    (t.ensureChild p name b).without s = (t.without s).ensureChild p name b := by
  rw [ensureChild, ensureChild, has_without hp]
  split
  · split
    · rfl
    · exact without_modify (f := fun n => { n with synthetic := false }) fun _ => rfl
  · have hnew : (!(Node.blank (p ++ [name]) b).path.isUnder s) = true := by
      rw [Node.blank, hp, Bool.not_false]
    simp [without, hnew]

theorem without_ensureChild_inside (b : Bool) (hp : (p ++ [name]).isUnder s = true) :
    (t.ensureChild p name b).without s = t.without s := by
  rw [ensureChild]
  split
  · split
    · rfl
    · exact without_modify_inside (f := fun n => { n with synthetic := false }) (fun _ => rfl) hp
  · have hnew : ¬(!(Node.blank (p ++ [name]) b).path.isUnder s) = true := by
      simp [Node.blank, hp]
    simp [without, hnew]

theorem without_ensureFrom (b : Bool) {names : List String}
    (hp : ∀ q ∈ Path.stepsFrom p names, q.isUnder s = false) :
    (ensureFrom b t p names).without s = ensureFrom b (t.without s) p names := by
  induction names generalizing t p with
  | nil => rfl
  | cons name rest ih =>
      obtain ⟨hhead, hrest⟩ := List.forall_mem_cons.1 hp
      rw [ensureFrom, ensureFrom, ih hrest, without_ensureChild b hhead]

theorem without_ensureFrom_inside (b : Bool) {names : List String}
    (hp : ∀ q ∈ Path.stepsFrom p names, q.isUnder s = true) :
    (ensureFrom b t p names).without s = t.without s := by
  induction names generalizing t p with
  | nil => rfl
  | cons name rest ih =>
      obtain ⟨hhead, hrest⟩ := List.forall_mem_cons.1 hp
      rw [ensureFrom, ih hrest, without_ensureChild_inside b hhead]

theorem without_ensure (b : Bool) (hp : p.isUnder s = false) :
    (t.ensure p b).without s = (t.without s).ensure p b :=
  without_ensureFrom b fun _ hq => (Path.isUnder_of_mem_steps hq).trans hp

theorem without_ensure_inside (b : Bool) (hp : p.isUnder s = true) :
    (t.ensure p b).without s = t.without s :=
  without_ensureFrom_inside b fun _ hq => (Path.isUnder_of_mem_steps hq).trans hp

theorem fullName_without (ht : t.fromEnd = []) (p : Path) :
    (t.without s).fullName p = t.fullName p := by
  have hwithout : (t.without s).fromEnd = [] := ht
  rw [fullName_of_fromEnd ht, fullName_of_fromEnd hwithout, rootName_without]

/-! ### What is declared -/

theorem childrenOf_without (hne : p ≠ []) (hp : p.isUnder s = false) :
    (t.without s).childrenOf p = t.childrenOf p := by
  rw [childrenOf, childrenOf, without, List.filter_filter]
  refine List.filter_congr fun n _ => ?_
  cases hchild : p.isChildOf n.path with
  | false => rfl
  | true => rw [Path.isUnder_of_isChildOf hne hchild, hp, Bool.not_false, Bool.true_and]

theorem childrenOf_root_without (t : Tree) (s : String) :
    (t.without s).childrenOf [] = (t.childrenOf []).filter fun n => !n.path.isUnder s := by
  rw [childrenOf, childrenOf, without, List.filter_filter, List.filter_filter]
  exact List.filter_congr fun n _ => Bool.and_comm _ _

/-- The branch at a node outside of the name is the same, except for that at the root. -/
theorem branch_without {n : Node} (hne : n.path ≠ []) (hn : n.path.isUnder s = false) :
    (t.without s).branch n = t.branch n := by
  induction n using below_induction (t := t) with
  | h n ih =>
      rw [branch_eq, branch_eq, childrenOf_without hne hn]
      refine congrArg _ (List.map_congr_left fun c hc => ?_)
      have hchild := (List.mem_filter.1 hc).2
      refine ih c hc ?_ ((Path.isUnder_of_isChildOf hne hchild).trans hn)
      intro hnil
      rw [hnil] at hchild
      simp [Path.isChildOf] at hchild

end Tree

end ApiTypings
