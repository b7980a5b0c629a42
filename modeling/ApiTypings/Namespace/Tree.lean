import ApiTypings.Api.Record
import ApiTypings.Journal
import ApiTypings.Namespace.Path

/-!
The tree of namespaces.

The nodes of a tree are kept in the order of their creation, each with its path. Which node is the
parent of another, which ones are its children and in which order they are declared all follow from
the paths and that order, so there is nothing that could get out of step.

A node may exist only because another type extends it. Such a node is synthetic until a record
leads to it or passes through it.

A child may also be asked for by the position of its parent. A position that counts from the end
means another node once there are more nodes, and a node that was created under such a position
keeps to it: its place in the tree is below the node that was meant, but its name is spelled below
the node that is meant now.
-/

namespace ApiTypings

/-- The names of members that a type lacks, its own exclusions and inherited ones, by kind. -/
structure Exclusions where
  methods : List String
  properties : List String
  deriving DecidableEq, Repr, Inhabited

namespace Exclusions

/-- No exclusions. -/
def empty : Exclusions := ⟨[], []⟩

/-- All names of either kind. -/
def names (e : Exclusions) : List String := e.methods ++ e.properties

/-- The exclusions of two sources together. -/
def union (own inherited : Exclusions) : Exclusions :=
  ⟨own.methods ++ inherited.methods, own.properties ++ inherited.properties⟩

end Exclusions

/-- What is known of a node once its exclusions are resolved: its record, with the excluded members
removed, and the exclusions that are in effect for it. -/
structure Resolution where
  record : TypeRecord
  excluded : Exclusions
  deriving Inhabited

/-- One node: its path, the merged document of all records for it, whether it is there only as the
target of an extension, and its resolution once it has one. -/
structure Node where
  path : Path
  doc : Fields
  synthetic : Bool
  resolution : Option Resolution
  deriving Inhabited

/-- A node about which nothing is known. -/
def Node.blank (path : Path) (synthetic : Bool) : Node := ⟨path, [], synthetic, none⟩

/-- A tree: the name of its root, the version of the description it was made from, and the nodes in
the order of their creation, the root first. `fromEnd` lists the nodes that were created under a
position from the end, with that position. -/
structure Tree where
  rootName : String
  version : String
  nodes : List Node
  fromEnd : List (Path × Int)
  deriving Inhabited

namespace Tree

/-- The tree that has only a root. -/
def rooted (rootName version : String) : Tree := ⟨rootName, version, [Node.blank [] false], []⟩

/-! ### Looking up -/

/-- The number of nodes. -/
def size (t : Tree) : Nat := t.nodes.length

def has (t : Tree) (p : Path) : Bool := t.nodes.any (·.path == p)

/-- The node at a path; where there is none, a node about which nothing is known. -/
def nodeAt (t : Tree) (p : Path) : Node :=
  (t.nodes.find? (·.path == p)).getD (Node.blank p false)

/-- The position of the node at a path. -/
def indexOf? (t : Tree) (p : Path) : Option Nat := t.nodes.findIdx? (·.path == p)

/-- The node at a position; a negative position counts from the end. -/
def atPosition (t : Tree) (position : Int) : Except Fault Node :=
  let index := if position < 0 then position + t.size else position
  if index < 0 then .error (.noSuchPosition position)
  else
    match t.nodes[index.toNat]? with
    | some n => .ok n
    | none => .error (.noSuchPosition position)

/-- The children of a node, in the order of their creation. -/
def childrenOf (t : Tree) (p : Path) : List Node := t.nodes.filter fun n => p.isChildOf n.path

/-! ### Names -/

/-- The path below which the name of a node is spelled. -/
def speltBelow (t : Tree) (p : Path) : Path :=
  match t.fromEnd.lookup p with
  | none => p.dropLast
  | some position =>
    match t.atPosition position with
    | .ok n => n.path
    | .error _ => []

/-- The path by which a node is spelled, going up at most a number of times. -/
def speltFrom (t : Tree) : Nat → Path → Path
  | 0, p => p
  | n + 1, p => if p.isEmpty then [] else speltFrom t n (t.speltBelow p) ++ p.drop (p.length - 1)

/-- The path by which the node at a path is spelled. It is another one only if there are nodes that
were created under a position from the end. -/
def spelt (t : Tree) (p : Path) : Path := if t.fromEnd.isEmpty then p else t.speltFrom t.size p

/-- The dotted name of the node at a path. -/
def fullName (t : Tree) (p : Path) : String := (t.spelt p).fullName t.rootName

theorem fullName_of_fromEnd {t : Tree} (h : t.fromEnd = []) (p : Path) :
    t.fullName p = p.fullName t.rootName := by
  simp [fullName, spelt, h]

/-! ### Creating -/

/-- Changes the node at a path. -/
def modify (t : Tree) (p : Path) (f : Node → Node) : Tree :=
  { t with nodes := t.nodes.map fun n => if n.path = p then f n else n }

/-- Makes sure that a node has a child of a name. A child that is there stays as it is, except that
it is no longer synthetic once it is needed for itself. -/
def ensureChild (t : Tree) (parent : Path) (name : String) (synthetic : Bool) : Tree :=
  let p := parent ++ [name]
  if t.has p then
    if synthetic then t else t.modify p fun n => { n with synthetic := false }
  else { t with nodes := t.nodes ++ [Node.blank p synthetic] }

/-- Makes sure of a child, of a child of that child, and so on along the segments. -/
def ensureFrom (synthetic : Bool) : Tree → Path → List String → Tree
  | t, _, [] => t
  | t, base, name :: rest =>
    ensureFrom synthetic (t.ensureChild base name synthetic) (base ++ [name]) rest

/-- Makes sure of every node on the way from the root along a path. -/
def ensure (t : Tree) (p : Path) (synthetic : Bool) : Tree := ensureFrom synthetic t [] p

/-- Makes sure that the node at a position has a child of a name, and gives the path of that child. A
new child of a position from the end keeps to that position. -/
def ensureAt (t : Tree) (position : Int) (name : String) (synthetic : Bool) :
    Except Fault (Tree × Path) := do
  let parent ← t.atPosition position
  let p := parent.path ++ [name]
  let grown := t.ensureChild parent.path name synthetic
  if position < 0 ∧ !t.has p then pure ({ grown with fromEnd := t.fromEnd ++ [(p, position)] }, p)
  else pure (grown, p)

/-- The remarks on the segments of a dotted name that will not be declared. -/
def pathRemarks (rootName name : String) : List Entry :=
  ((Path.ofName rootName name).filter (!isDeclarable ·)).map fun segment =>
    ⟨.debug, .namespaces,
      "Node '" ++ segment ++ "' of '" ++ name ++ "' will be skipped on output."⟩

/-! ### Nodes that are added for an extension -/

/-- Whether there is a node for each step from a path along segments. -/
def hasFrom (t : Tree) : Path → List String → Bool
  | _, [] => true
  | base, name :: rest => t.has (base ++ [name]) && hasFrom t (base ++ [name]) rest

/-- Whether there is a node for each step from the root along a path. -/
def reaches (t : Tree) (p : Path) : Bool := t.hasFrom [] p

@[simp] theorem rootName_ensureChild (t : Tree) (parent : Path) (name : String) (s : Bool) :
    (t.ensureChild parent name s).rootName = t.rootName := by
  by_cases h : t.has (parent ++ [name]) <;> cases s <;> simp [ensureChild, modify, h]

@[simp] theorem rootName_ensureFrom (s : Bool) (t : Tree) (base : Path) (names : List String) :
    (ensureFrom s t base names).rootName = t.rootName := by
  induction names generalizing t base with
  | nil => rfl
  | cons name rest ih => simp [ensureFrom, ih]

@[simp] theorem rootName_ensure (t : Tree) (p : Path) (s : Bool) :
    (t.ensure p s).rootName = t.rootName := rootName_ensureFrom s t [] p

@[simp] theorem fromEnd_ensureChild (t : Tree) (parent : Path) (name : String) (s : Bool) :
    (t.ensureChild parent name s).fromEnd = t.fromEnd := by
  by_cases h : t.has (parent ++ [name]) <;> cases s <;> simp [ensureChild, modify, h]

@[simp] theorem fromEnd_ensureFrom (s : Bool) (t : Tree) (base : Path) (names : List String) :
    (ensureFrom s t base names).fromEnd = t.fromEnd := by
  induction names generalizing t base with
  | nil => rfl
  | cons name rest ih => simp [ensureFrom, ih]

/-- Only the creation of a child at a position adds to the nodes whose names are spelled apart. -/
@[simp] theorem fromEnd_ensure (t : Tree) (p : Path) (s : Bool) :
    (t.ensure p s).fromEnd = t.fromEnd := fromEnd_ensureFrom s t [] p

/-- Making sure of synthetic nodes changes no node and adds only synthetic nodes of which nothing
else is known. -/
theorem nodes_ensureFrom_synthetic (t : Tree) (base : Path) (names : List String) :
    ∃ added : List Node, (ensureFrom true t base names).nodes = t.nodes ++ added ∧
      ∀ n ∈ added, n = Node.blank n.path true := by
  induction names generalizing t base with
  | nil => exact ⟨[], by simp [ensureFrom]⟩
  | cons name rest ih =>
      obtain ⟨added, hadded, hblank⟩ := ih (t.ensureChild base name true) (base ++ [name])
      by_cases h : t.has (base ++ [name])
      · refine ⟨added, ?_, hblank⟩
        simpa [ensureFrom, ensureChild, h] using hadded
      · refine ⟨Node.blank (base ++ [name]) true :: added, ?_, ?_⟩
        · simpa [ensureFrom, ensureChild, h] using hadded
        · intro n hn
          rcases List.mem_cons.1 hn with rfl | hn
          · rfl
          · exact hblank n hn

theorem nodes_ensure_synthetic (t : Tree) (p : Path) :
    ∃ added : List Node, (t.ensure p true).nodes = t.nodes ++ added ∧
      ∀ n ∈ added, n = Node.blank n.path true :=
  nodes_ensureFrom_synthetic t [] p

/-- A tree that reaches a path is not changed by making sure of synthetic nodes along it. -/
theorem ensureFrom_of_hasFrom {t : Tree} {base : Path} {names : List String}
    (h : t.hasFrom base names = true) : ensureFrom true t base names = t := by
  induction names generalizing base with
  | nil => rfl
  | cons name rest ih =>
      obtain ⟨hhas, hrest⟩ := Bool.and_eq_true_iff.1 h
      rw [ensureFrom, ensureChild, if_pos hhas, if_pos rfl]
      exact ih hrest

theorem ensure_of_reaches {t : Tree} {p : Path} (h : t.reaches p = true) : t.ensure p true = t :=
  ensureFrom_of_hasFrom h

/-- With more nodes, a tree reaches what it reached before. -/
theorem hasFrom_mono {t u : Tree} (hmono : ∀ p, t.has p = true → u.has p = true) {base : Path}
    {names : List String} (h : t.hasFrom base names = true) : u.hasFrom base names = true := by
  induction names generalizing base with
  | nil => rfl
  | cons name rest ih =>
      obtain ⟨hhas, hrest⟩ := Bool.and_eq_true_iff.1 h
      exact Bool.and_eq_true_iff.2 ⟨hmono _ hhas, ih hrest⟩

theorem has_of_append {t u : Tree} {added : List Node} (h : u.nodes = t.nodes ++ added) (p : Path)
    (hp : t.has p = true) : u.has p = true := by
  simp only [has, h, List.any_append, Bool.or_eq_true] at hp ⊢
  exact .inl hp

theorem has_ensureChild (t : Tree) (base : Path) (name : String) :
    (t.ensureChild base name true).has (base ++ [name]) = true := by
  by_cases h : t.has (base ++ [name])
  · simp [ensureChild, h]
  · rw [ensureChild, if_neg h]
    simp [has, Node.blank]

/-- After making sure of synthetic nodes along a path, the tree reaches it. -/
theorem hasFrom_ensureFrom (t : Tree) (base : Path) (names : List String) :
    (ensureFrom true t base names).hasFrom base names = true := by
  induction names generalizing t base with
  | nil => rfl
  | cons name rest ih =>
      rw [ensureFrom]
      obtain ⟨added, hadded, -⟩ :=
        nodes_ensureFrom_synthetic (t.ensureChild base name true) (base ++ [name]) rest
      exact Bool.and_eq_true_iff.2
        ⟨has_of_append hadded _ (has_ensureChild t base name), ih _ _⟩

theorem reaches_ensure (t : Tree) (p : Path) : (t.ensure p true).reaches p = true :=
  hasFrom_ensureFrom t [] p

theorem reaches_ensure_of_reaches {t : Tree} {q : Path} (p : Path) (h : t.reaches q = true) :
    (t.ensure p true).reaches q = true := by
  obtain ⟨added, hadded, -⟩ := nodes_ensure_synthetic t p
  exact hasFrom_mono (has_of_append hadded) h

/-- A node with a document is one of the tree's nodes. -/
theorem nodeAt_mem {t : Tree} {p : Path} (h : (t.nodeAt p).doc ≠ []) : t.nodeAt p ∈ t.nodes := by
  unfold nodeAt at h ⊢
  cases hf : t.nodes.find? (·.path == p) with
  | none => simp [hf, Node.blank] at h
  | some n => simpa [hf] using List.mem_of_find?_eq_some hf

theorem path_nodeAt (t : Tree) (p : Path) : (t.nodeAt p).path = p := by
  unfold nodeAt
  cases hf : t.nodes.find? (·.path == p) with
  | none => rfl
  | some n => simpa using List.find?_some hf

end Tree

end ApiTypings
