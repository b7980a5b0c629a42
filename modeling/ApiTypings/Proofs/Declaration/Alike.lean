import ApiTypings.Proofs.Declaration.Stages
import ApiTypings.Proofs.Exclusion.Alike
import ApiTypings.Proofs.Namespace.Below

/-!
Declarations of trees that are alike.

Of the document of a node, declaring reads no more than whether there is any. An outline of a branch
keeps just that, and has the same declarations. Trees that are alike have the same outline, and so
have the trees that are made of them by a resolution.
-/

namespace ApiTypings

open Exclusion Declaration

/-- A node with a document that tells only whether there was one. -/
def Node.outline (n : Node) : Node :=
  { n with doc := if n.doc.isEmpty then [] else [("", .null)] }

theorem Node.isEmpty_doc_outline (n : Node) : n.outline.doc.isEmpty = n.doc.isEmpty := by
  rw [outline]
  cases n.doc.isEmpty <;> rfl

theorem Node.Alike.outline {n m : Node} (h : n.Alike m) : n.outline = m.outline := by
  rw [Node.outline, Node.outline, h.path, h.synthetic, h.resolution, Fields.isEmpty_congr h.doc]

namespace Branch

mutual

def outline : Branch → Branch
  | .fork n bs => .fork n.outline (outlineAll bs)

def outlineAll : List Branch → List Branch
  | [] => []
  | b :: rest => outline b :: outlineAll rest

end

theorem outlineAll_eq_map (bs : List Branch) : outlineAll bs = bs.map outline := by
  induction bs with
  | nil => rfl
  | cons b rest ih => rw [outlineAll, ih, List.map_cons]

theorem isEmpty_outlineAll (bs : List Branch) : (outlineAll bs).isEmpty = bs.isEmpty := by
  rw [outlineAll_eq_map, List.isEmpty_map]

mutual

theorem isPlaceholder_outline : ∀ b : Branch, b.outline.isPlaceholder = b.isPlaceholder
  | .fork n bs => by
      rw [outline, isPlaceholder, isPlaceholder, arePlaceholders_outlineAll bs,
        n.isEmpty_doc_outline]
      rfl

theorem arePlaceholders_outlineAll :
    ∀ bs : List Branch, arePlaceholders (outlineAll bs) = arePlaceholders bs
  | [] => rfl
  | b :: rest => by
      rw [outlineAll, arePlaceholders, arePlaceholders, isPlaceholder_outline b,
        arePlaceholders_outlineAll rest]

end

end Branch

namespace Declaration

variable {ctx : Context}

mutual

theorem branchText_outline : ∀ b : Branch, branchText ctx b.outline = branchText ctx b
  | .fork n bs => by
      have hplaceholder := Branch.isPlaceholder_outline (.fork n bs)
      rw [Branch.outline] at hplaceholder ⊢
      rw [branchText, branchText, hplaceholder, Branch.isEmpty_outlineAll,
        branchTexts_outlineAll bs]
      rfl

theorem branchTexts_outlineAll :
    ∀ bs : List Branch, branchTexts ctx (Branch.outlineAll bs) = branchTexts ctx bs
  | [] => rfl
  | b :: rest => by
      rw [Branch.outlineAll, branchTexts, branchTexts, branchText_outline b,
        branchTexts_outlineAll rest]

end

theorem bodyText_outline (b : Branch) : bodyText ctx b.outline = bodyText ctx b := by
  obtain ⟨n, bs⟩ := b
  rw [Branch.outline, bodyText, bodyText]
  dsimp only [Branch.children]
  rw [branchTexts_outlineAll]
  rfl

end Declaration

namespace Tree

variable {t u : Tree}

theorem outline_branch (h : t.Alike u) {n m : Node} (hnm : n.Alike m) :
    (t.branch n).outline = (u.branch m).outline := by
  induction n using below_induction (t := t) generalizing m with
  | h n ih =>
      have hchildren : ((t.childrenOf n.path).map t.branch).map Branch.outline =
          ((u.childrenOf m.path).map u.branch).map Branch.outline := by
        rw [List.map_map, List.map_map, ← hnm.path]
        exact map_eq_of_forall₂ (h.childrenOf n.path) fun c hc d hcd => ih c hc hcd
      rw [branch_eq, branch_eq, Branch.outline, Branch.outline, Branch.outlineAll_eq_map,
        Branch.outlineAll_eq_map, hchildren, hnm.outline]

end Tree

namespace Declaration

variable {options : Options} {t u : Tree}

theorem treeBody_alike (h : t.Alike u) : treeBody options t = treeBody options u := by
  have hcontext : contextOf options t = contextOf options u := by
    rw [contextOf, contextOf, h.rootName, funext h.fullName]
  have houtline : t.rootBranch.outline = u.rootBranch.outline :=
    Tree.outline_branch h (h.nodeAt [])
  rw [treeBody, treeBody, hcontext, ← bodyText_outline, houtline, bodyText_outline]

/-- Descriptions with trees that are alike have the same outcome. -/
theorem outcome_generate_alike {apis apis' : Fields}
    (hbuild : (Tree.build (.obj apis) options.rootName).outcome = .ok t)
    (hbuild' : (Tree.build (.obj apis') options.rootName).outcome = .ok u) (h : t.Alike u) :
    (generate options (.obj apis)).outcome = (generate options (.obj apis')).outcome := by
  have hresolved := resolveAll_alike h
  rw [outcome_generate_of_build hbuild, outcome_generate_of_build hbuild', hresolved.outcome,
    treeBody_alike hresolved.tree, hresolved.tree.version]

end Declaration

end ApiTypings
