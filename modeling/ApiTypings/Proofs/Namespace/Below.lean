import ApiTypings.Namespace.Branch
import ApiTypings.Proofs.Namespace.Node

/-!
What stands below a node.

A branch is made of the nodes of its tree. As paths get longer from a node to its children, what is
true of a node whenever it is true of the node's children is true of every node.
-/

namespace ApiTypings

namespace Branch

theorem mem_preorderAll {n : Node} {bs : List Branch} :
    n ∈ preorderAll bs ↔ ∃ b ∈ bs, n ∈ b.preorder := by
  induction bs with
  | nil => simp [preorderAll]
  | cons b rest ih => rw [preorderAll, List.mem_append, ih, List.exists_mem_cons_iff]

end Branch

namespace Tree

variable {t : Tree}

/-- Induction over the nodes of a tree, from the children of a node to the node. -/
theorem below_induction {C : Node → Prop}
    (h : ∀ n, (∀ c ∈ t.childrenOf n.path, C c) → C n) (n : Node) : C n := by
  induction n using branch.induct t with
  | case1 n ih => exact h n fun c hc => ih ⟨c, hc⟩

theorem mem_nodes_of_mem_branch {n m : Node} (hn : n ∈ t.nodes)
    (hm : m ∈ (t.branch n).preorder) : m ∈ t.nodes := by
  induction n using below_induction (t := t) with
  | h n ih =>
      rw [branch_eq, Branch.preorder, List.mem_cons, Branch.mem_preorderAll] at hm
      rcases hm with rfl | ⟨b, hb, hm⟩
      · exact hn
      · obtain ⟨c, hc, rfl⟩ := List.mem_map.1 hb
        exact ih c hc (List.mem_of_mem_filter hc) hm

/-- The branch at the root is made of the nodes of the tree. -/
theorem mem_nodes_of_mem_rootBranch {m : Node} (hroot : [] ∈ t.paths)
    (hm : m ∈ t.rootBranch.preorder) : m ∈ t.nodes :=
  mem_nodes_of_mem_branch (nodeAt_mem_nodes hroot) hm

end Tree

end ApiTypings
