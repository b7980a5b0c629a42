import ApiTypings.Proofs.Exclusion.Kept
import ApiTypings.Proofs.Exclusion.Request
import ApiTypings.Proofs.Namespace.Created

/-!
All that can be done to a tree.

A tree starts with its root and grows by children that are asked for by position, by dotted names
that are looked up, by records that are added and by requests to resolve nodes, in any order,
whether or not any of these succeeds. `operateAll` is a run of such operations.

Resolving changes a tree in two ways only: it makes sure of a synthetic path, and it settles a node.
What both of these keep, every request keeps, however it ends.
-/

namespace ApiTypings

open Exclusion

/-! ### What requests keep -/

namespace Exclusion

variable {P : Tree → Prop} {t : Tree}

theorem kept_perform (hP : Tree.Kept P) (h : P t) (request : Request) : P (perform t request) := by
  cases request with
  | all =>
      exact kept_andThen (kept_resolveEach hP h _) fun _ _ hu => kept_resolveEach hP hu _
  | node position =>
      rw [perform]
      cases hn : t.atPosition position with
      | error fault => simpa only [resolveAt, hn] using h
      | ok n => exact tree_resolveAt hn ▸ kept_resolve hP h n.path

theorem kept_performAll (hP : Tree.Kept P) (h : P t) (requests : List Request) :
    P (performAll t requests) := by
  induction requests generalizing t with
  | nil => exact h
  | cons request rest ih => exact ih (kept_perform hP h request)

end Exclusion

/-! ### Operations -/

/-- Something that is done to a tree. A child is asked for by the position of its parent, and a
record comes with the key that it is filed under. -/
inductive Operation where
  | create (parent : Nat) (name : String) (synthetic : Bool)
  | lookUp (name : String) (synthetic : Bool)
  | record (api : Fields) (key : String)
  | resolve (request : Request)

namespace Tree

/-- The tree that an operation leaves behind, whether or not it succeeds. -/
def operate (t : Tree) : Operation → Tree
  | .create parent name synthetic =>
    match t.ensureAt parent name synthetic with
    | .ok (u, _) => u
    | .error _ => t
  | .lookUp name synthetic => t.ensure (Path.ofName t.rootName name) synthetic
  | .record api key => (t.addRecord api key).tree
  | .resolve request => perform t request

/-- The tree after one operation after another. -/
def operateAll (t : Tree) (operations : List Operation) : Tree := operations.foldl operate t

variable {t u : Tree}

theorem atPosition_natCast (t : Tree) (i : Nat) :
    t.atPosition i = (t.nodes[i]?).elim (.error (.noSuchPosition i)) .ok := by
  have hi : ¬(i : Int) < 0 := by omega
  rw [atPosition, if_neg hi, if_neg hi, Int.toNat_natCast]
  cases t.nodes[i]? <;> rfl

/-- A child of a node at a position from the front is made sure of like any other. -/
theorem ensureAt_natCast (t : Tree) (i : Nat) (name : String) (s : Bool) :
    t.ensureAt i name s = (t.paths[i]?).elim (.error (.noSuchPosition i))
      fun base => .ok (t.ensureChild base name s, base ++ [name]) := by
  have hi : ¬(i : Int) < 0 := by omega
  rw [ensureAt, atPosition_natCast, paths, List.getElem?_map]
  cases t.nodes[i]? with
  | none => rfl
  | some n =>
      simp only [Option.elim_some, Option.map_some, bind, Except.bind, hi, false_and, if_false]
      rfl

/-! ### The slots of a tree on its way -/

/-- What is known of a node is no matter of slots. -/
theorem Expands.modify (h : t.Expands u) (p : Path) {f : Node → Node}
    (hf : ∀ n, (f n).path = n.path) : t.Expands (u.modify p f) := by
  have hpaths : (u.modify p f).paths = u.paths := paths_modify hf
  have hslots : (u.modify p f).slots = u.slots := slots_congr rfl hpaths
  exact ⟨hpaths ▸ h.created, hslots ▸ h.evolve⟩

theorem kept_expands (t : Tree) : Kept t.Expands where
  ensure p h := h.trans (expands_ensure h.created p true)
  settle p _ h := h.modify p fun _ => rfl

theorem expands_addRecord (h : Path.Created t.paths) (api : Fields) (key : String) :
    t.Expands (t.addRecord api key).tree := by
  unfold addRecord
  split
  · exact .refl h
  · exact (expands_ensure h _ false).modify _ fun _ => rfl

theorem expands_operate (h : Path.Created t.paths) (operation : Operation) :
    t.Expands (t.operate operation) := by
  cases operation with
  | create parent name synthetic =>
      rw [operate, ensureAt_natCast]
      cases hbase : t.paths[parent]? with
      | none => exact .refl h
      | some base => exact expands_ensureChild h (List.mem_of_getElem? hbase) name synthetic
  | lookUp name synthetic => exact expands_ensure h _ synthetic
  | record api key => exact expands_addRecord h api key
  | resolve request => exact kept_perform (kept_expands t) (.refl h) request

theorem expands_operateAll (h : Path.Created t.paths) (operations : List Operation) :
    t.Expands (t.operateAll operations) := by
  induction operations generalizing t with
  | nil => exact .refl h
  | cons operation rest ih =>
      have hone := expands_operate h operation
      exact hone.trans (ih hone.created)

/-- A tree side by side with its slots. They are in step, and there is one for each node, found
along its path, with its name, its depth and its children in order. Each child that is asked for is
got or created in them. -/
structure Slotted (t : Tree) : Prop where
  inStep : Slots.InStep t.slots
  length : t.slots.length = t.size
  position : ∀ (i : Nat) (n : Node), t.nodes[i]? = some n →
    Slots.find? t.slots 0 n.path = some i ∧
      ∃ s, t.slots[i]? = some s ∧ s.name = n.path.baseName t.rootName ∧
        s.depth = n.path.depth ∧ s.inGlobal = n.path.inGlobal ∧
        s.children.map some = (t.childrenOf n.path).map (t.indexOf? ·.path)
  create : ∀ (i : Nat) (name : String) (synthetic : Bool) (u : Tree) (p : Path),
    t.ensureAt i name synthetic = .ok (u, p) →
      ∃ j, u.indexOf? p = some j ∧ Slots.getOrCreate t.slots i name = (u.slots, j)

theorem indexOf?_of_created (h : Path.Created t.paths) {p : Path} {i : Nat}
    (hi : t.paths[i]? = some p) : t.indexOf? p = some i := by
  obtain ⟨hlt, hp⟩ := List.getElem?_eq_some_iff.1 hi
  have hnodes : i < t.nodes.length := by simpa [paths] using hlt
  refine List.findIdx?_eq_some_iff_getElem.2 ⟨hnodes, ?_, ?_⟩
  · simpa [paths] using hp
  · intro j hj
    have hne : t.paths[j] ≠ p := fun heq =>
      Nat.ne_of_lt hj (h.nodup.getElem_inj_iff.1 (heq.trans hp.symm))
    simpa [paths] using hne

/-- The children in the slot of a node are the positions of its children in the tree. -/
theorem indexOf?_childrenOf (h : Path.Created t.paths) {p : Path} {positions : List Nat}
    (hchildren : positions.map (t.paths[·]?) = (t.paths.filter p.isChildOf).map some) :
    positions.map some = (t.childrenOf p).map (t.indexOf? ·.path) := by
  have hpaths : t.paths.filter p.isChildOf = (t.childrenOf p).map Node.path := by
    rw [paths, List.filter_map]
    rfl
  calc positions.map some
    _ = positions.map fun j => t.paths[j]?.bind t.indexOf? := List.map_congr_left fun j hj => by
        have hmem : t.paths[j]? ∈ (t.paths.filter p.isChildOf).map some :=
          hchildren ▸ List.mem_map.2 ⟨j, hj, rfl⟩
        obtain ⟨q, -, hq⟩ := List.mem_map.1 hmem
        rw [← hq, Option.bind_some, indexOf?_of_created h hq.symm]
    _ = (positions.map (t.paths[·]?)).map (·.bind t.indexOf?) := by simp
    _ = (t.childrenOf p).map (t.indexOf? ·.path) := by
        rw [hchildren, hpaths]
        simp

theorem Slotted.of_created (h : Path.Created t.paths) : t.Slotted := by
  obtain ⟨hslots, hfollow⟩ := inStep_slots h
  refine ⟨hslots, ?_, ?_, ?_⟩
  · rw [hfollow.length, paths, List.length_map]
    rfl
  · intro i n hn
    have hi : t.paths[i]? = some n.path := by rw [paths, List.getElem?_map, hn, Option.map_some]
    obtain ⟨s, hs⟩ := hfollow.getElem? hi
    obtain ⟨hdepth, hglobal⟩ := hfollow.depth i _ s hi hs
    have hchildren := indexOf?_childrenOf h (hfollow.children i _ s hi hs)
    refine ⟨(hfollow.find? hslots h).2 hi, s, hs, ?_, hdepth, hglobal, hchildren⟩
    rcases hfollow.above i _ s hi hs with ⟨hnil, -, hname⟩ | ⟨j, q, -, -, hpath⟩
    · rw [hnil, hname]
      rfl
    · rw [hpath, Path.baseName, List.getLast?_concat, Option.getD_some]
  · intro i name synthetic u p hu
    rw [ensureAt_natCast] at hu
    cases hbase : t.paths[i]? with
    | none => simp [hbase] at hu
    | some base =>
        rw [hbase] at hu
        obtain ⟨rfl, rfl⟩ := Prod.mk.inj (Except.ok.inj hu)
        obtain ⟨j, hj, hget⟩ := slots_ensureChild h hbase name synthetic
        have hmem : base ∈ t.paths := List.mem_of_getElem? hbase
        exact ⟨j, indexOf?_of_created (expands_ensureChild h hmem name synthetic).created hj, hget⟩

/-- Whatever is done to a tree that has only a root, and whether or not it succeeds, the tree has
its slots beside it, in step with each other; and each operation changes the slots by getting or
creating children alone. -/
theorem slotted_operateAll (rootName version : String) (operations : List Operation) :
    ((rooted rootName version).operateAll operations).Slotted ∧
      ∀ operation, Slots.Evolve ((rooted rootName version).operateAll operations).slots
        (((rooted rootName version).operateAll operations).operate operation).slots := by
  have h := (expands_operateAll (t := rooted rootName version) .root operations).created
  exact ⟨.of_created h, fun operation => (expands_operate h operation).evolve⟩

end Tree

end ApiTypings
