import ApiTypings.Namespace.Tree
import ApiTypings.Proofs.Namespace.Mention
import Mathlib.Data.List.Nodup

/-!
The nodes of a tree by their paths.

Each operation on a tree is described by what it does to the paths and to the node at each path.
The lemmas on `modify`, `ensureChild` and `ensure` below are all that is used of them later on; the
list of nodes is not taken apart again.
-/

namespace ApiTypings.Tree

/-- The paths of the nodes, in the order of their creation. -/
def paths (t : Tree) : List Path := t.nodes.map Node.path

/-! ### Looking up -/

theorem mem_paths {t : Tree} {p : Path} : p ∈ t.paths ↔ ∃ n ∈ t.nodes, n.path = p := List.mem_map

theorem has_iff {t : Tree} {p : Path} : t.has p = true ↔ p ∈ t.paths := by
  simp [has, mem_paths]

theorem find?_of_mem {t : Tree} {p : Path} (h : p ∈ t.paths) :
    t.nodes.find? (·.path == p) = some (t.nodeAt p) := by
  obtain ⟨n, hn, hpath⟩ := mem_paths.1 h
  unfold nodeAt
  cases hf : t.nodes.find? (·.path == p) with
  | none => exact absurd hpath (by simpa using List.find?_eq_none.1 hf n hn)
  | some m => rfl

theorem find?_of_not_mem {t : Tree} {p : Path} (h : p ∉ t.paths) :
    t.nodes.find? (·.path == p) = none := by
  refine List.find?_eq_none.2 fun n hn => ?_
  simpa using fun hpath : n.path = p => h (mem_paths.2 ⟨n, hn, hpath⟩)

theorem nodeAt_mem_nodes {t : Tree} {p : Path} (h : p ∈ t.paths) : t.nodeAt p ∈ t.nodes :=
  List.mem_of_find?_eq_some (find?_of_mem h)

theorem nodeAt_of_not_mem {t : Tree} {p : Path} (h : p ∉ t.paths) :
    t.nodeAt p = Node.blank p false := by
  rw [nodeAt, find?_of_not_mem h, Option.getD_none]

/-- Where no path occurs twice, a node is found at its path. -/
theorem nodeAt_path {t : Tree} (hd : t.paths.Nodup) {n : Node} (hn : n ∈ t.nodes) :
    t.nodeAt n.path = n :=
  List.inj_on_of_nodup_map hd (nodeAt_mem_nodes (mem_paths.2 ⟨n, hn, rfl⟩)) hn
    (path_nodeAt t n.path)

theorem path_mem_of_resolution {t : Tree} {p : Path} {r : Resolution}
    (h : (t.nodeAt p).resolution = some r) : p ∈ t.paths := by
  by_contra hp
  simp [nodeAt_of_not_mem hp, Node.blank] at h

theorem path_mem_of_doc {t : Tree} {p : Path} (h : (t.nodeAt p).doc ≠ []) : p ∈ t.paths := by
  by_contra hp
  simp [nodeAt_of_not_mem hp, Node.blank] at h

/-! ### Changing the node at a path -/

section Modify

variable {t : Tree} {p : Path} {f : Node → Node}

theorem paths_modify (hf : ∀ n, (f n).path = n.path) : (t.modify p f).paths = t.paths := by
  simp only [paths, modify, List.map_map]
  refine List.map_congr_left fun n _ => ?_
  simp only [Function.comp_apply]
  split
  · exact hf n
  · rfl

theorem nodeAt_modify (hf : ∀ n, (f n).path = n.path) (q : Path) :
    (t.modify p f).nodeAt q =
      if q = p ∧ p ∈ t.paths then f (t.nodeAt p) else t.nodeAt q := by
  have hpath : ∀ n, ((if n.path = p then f n else n).path == q) = (n.path == q) := by
    intro n
    split
    · rw [hf]
    · rfl
  have hfind : (t.modify p f).nodes.find? (·.path == q) =
      (t.nodes.find? (·.path == q)).map fun n => if n.path = p then f n else n := by
    simp only [modify, List.find?_map, Function.comp_def, hpath]
  by_cases hq : q ∈ t.paths
  · rw [nodeAt, hfind, find?_of_mem hq, Option.map_some, Option.getD_some, path_nodeAt]
    by_cases hqp : q = p
    · subst hqp
      rw [if_pos rfl, if_pos ⟨rfl, hq⟩]
    · rw [if_neg hqp, if_neg fun h => hqp h.1]
  · have hq' : q ∉ (t.modify p f).paths := by rwa [paths_modify hf]
    rw [nodeAt_of_not_mem hq', nodeAt_of_not_mem hq, if_neg]
    rintro ⟨rfl, hp⟩
    exact hq hp

end Modify

/-! ### Making sure of nodes -/

section Ensure

variable (s : Bool) (t : Tree) (base : Path) (name : String)

theorem paths_ensureChild :
    (t.ensureChild base name s).paths =
      if base ++ [name] ∈ t.paths then t.paths else t.paths ++ [base ++ [name]] := by
  by_cases h : base ++ [name] ∈ t.paths
  · rw [if_pos h, ensureChild, if_pos (has_iff.2 h)]
    split
    · rfl
    · exact paths_modify fun _ => rfl
  · rw [if_neg h, ensureChild, if_neg (mt has_iff.1 h)]
    simp [paths, Node.blank]

/-- Making sure of a child changes nothing but whether it is synthetic; a child that was missing is
there as if nothing were known about it. -/
theorem nodeAt_ensureChild (q : Path) :
    ∃ synthetic, (t.ensureChild base name s).nodeAt q = { t.nodeAt q with synthetic } := by
  by_cases h : base ++ [name] ∈ t.paths
  · rw [ensureChild, if_pos (has_iff.2 h)]
    split
    · exact ⟨_, rfl⟩
    · rw [nodeAt_modify (f := fun n => { n with synthetic := false }) fun _ => rfl]
      split
      next hq =>
        rw [hq.1]
        exact ⟨_, rfl⟩
      · exact ⟨_, rfl⟩
  · have hnone := mt has_iff.1 h
    rw [ensureChild, if_neg hnone]
    by_cases hq : q ∈ t.paths
    · refine ⟨(t.nodeAt q).synthetic, ?_⟩
      rw [nodeAt, List.find?_append, find?_of_mem hq, Option.some_or, Option.getD_some]
    · rw [nodeAt_of_not_mem hq, nodeAt, List.find?_append, find?_of_not_mem hq, Option.none_or]
      by_cases hbase : base ++ [name] = q
      · exact ⟨s, by simp [Node.blank, hbase]⟩
      · exact ⟨false, by simp [Node.blank, hbase]⟩

theorem nodeAt_ensureFrom (names : List String) (q : Path) :
    ∃ synthetic, (ensureFrom s t base names).nodeAt q = { t.nodeAt q with synthetic } := by
  induction names generalizing t base with
  | nil => exact ⟨_, rfl⟩
  | cons name rest ih =>
      obtain ⟨s', hchild⟩ := nodeAt_ensureChild s t base name q
      obtain ⟨s'', hrest⟩ := ih (t.ensureChild base name s) (base ++ [name])
      exact ⟨s'', by rw [ensureFrom, hrest, hchild]⟩

@[simp] theorem doc_nodeAt_ensure (p q : Path) :
    ((t.ensure p s).nodeAt q).doc = (t.nodeAt q).doc := by
  obtain ⟨s', h⟩ := nodeAt_ensureFrom s t [] p q
  rw [ensure, h]

@[simp] theorem resolution_nodeAt_ensure (p q : Path) :
    ((t.ensure p s).nodeAt q).resolution = (t.nodeAt q).resolution := by
  obtain ⟨s', h⟩ := nodeAt_ensureFrom s t [] p q
  rw [ensure, h]

variable {s t base}

theorem paths_ensureFrom {mentioned : List Path} {names : List String}
    (h : t.paths = mentioned.eraseDups) :
    (ensureFrom s t base names).paths = (mentioned ++ Path.stepsFrom base names).eraseDups := by
  induction names generalizing t base mentioned with
  | nil => simpa [ensureFrom, Path.stepsFrom] using h
  | cons name rest ih =>
      have hchild : (t.ensureChild base name s).paths =
          (mentioned ++ [base ++ [name]]).eraseDups := by
        rw [paths_ensureChild, eraseDups_concat, h]
        exact if_congr List.mem_eraseDups rfl rfl
      rw [ensureFrom, ih hchild, Path.stepsFrom, List.append_assoc, List.singleton_append]

/-- Making sure of a path mentions every step to it. -/
theorem paths_ensure {mentioned : List Path} (h : t.paths = mentioned.eraseDups) (p : Path) :
    (t.ensure p s).paths = (mentioned ++ p.steps).eraseDups := paths_ensureFrom h

end Ensure

end ApiTypings.Tree
