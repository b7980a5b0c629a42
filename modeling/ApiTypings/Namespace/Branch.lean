import ApiTypings.Namespace.Tree

/-!
Branches: the part of a tree below a node, as nested nodes.

A branch forgets positions and keeps what declarations are made from, a node with the branches of
its children in order. Everything that walks over a tree is defined on branches, by recursion on
their structure.
-/

namespace ApiTypings

/-- A node with everything below it. -/
inductive Branch where
  | fork (node : Node) (children : List Branch)
  deriving Inhabited

namespace Branch

def node : Branch → Node
  | .fork n _ => n

def children : Branch → List Branch
  | .fork _ bs => bs

mutual

/-- The nodes of a branch, each before those below it. -/
def preorder : Branch → List Node
  | .fork n bs => n :: preorderAll bs

def preorderAll : List Branch → List Node
  | [] => []
  | b :: rest => preorder b ++ preorderAll rest

end

mutual

/-- Whether a branch holds nothing but synthetic nodes without a document, so that nothing of it is
declared. -/
def isPlaceholder : Branch → Bool
  | .fork n bs => n.synthetic && n.doc.isEmpty && arePlaceholders bs

def arePlaceholders : List Branch → Bool
  | [] => true
  | b :: rest => isPlaceholder b && arePlaceholders rest

end

theorem arePlaceholders_iff {bs : List Branch} :
    arePlaceholders bs = true ↔ ∀ b ∈ bs, b.isPlaceholder = true := by
  induction bs with
  | nil => simp [arePlaceholders]
  | cons b rest ih => rw [arePlaceholders, Bool.and_eq_true, ih, List.forall_mem_cons]

end Branch

namespace Tree

/-- The length of the longest path. -/
def height (t : Tree) : Nat := t.nodes.foldr (fun n h => max n.path.length h) 0

theorem length_le_height {t : Tree} {n : Node} (h : n ∈ t.nodes) : n.path.length ≤ t.height := by
  unfold height
  generalize t.nodes = nodes at h ⊢
  induction nodes with
  | nil => simp at h
  | cons m rest ih =>
      rcases List.mem_cons.1 h with rfl | h
      · exact Nat.le_max_left _ _
      · exact Nat.le_trans (ih h) (Nat.le_max_right _ _)

/-- The branch at a node. -/
def branch (t : Tree) (n : Node) : Branch :=
  .fork n ((t.childrenOf n.path).attach.map fun c => t.branch c.1)
termination_by t.height - n.path.length
decreasing_by
  obtain ⟨hmem, hchild⟩ := List.mem_filter.1 c.2
  have hlen := Path.length_of_isChildOf hchild
  have hle := length_le_height hmem
  omega

/-- A branch is its node with the branches of the node's children. -/
theorem branch_eq (t : Tree) (n : Node) :
    t.branch n = .fork n ((t.childrenOf n.path).map t.branch) := by
  rw [branch]
  simp

/-- The branch at the root. -/
def rootBranch (t : Tree) : Branch := t.branch (t.nodeAt [])

/-- The nodes at and below a node, each before those below it, siblings in order. -/
def walk (t : Tree) (n : Node) : List Node := (t.branch n).preorder

end Tree

end ApiTypings
