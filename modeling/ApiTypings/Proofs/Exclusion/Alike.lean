import ApiTypings.Proofs.Exclusion.Simulation
import ApiTypings.Proofs.Namespace.Alike

/-!
Resolving trees that are alike.

Exclusions are resolved from what the documents hold under their keys. Of two trees that differ only
in the order of fields a resolution makes two such trees again, with the same result or the same
fault, since it takes the same course in both.
-/

namespace ApiTypings

open Exclusion

theorem Tree.Alike.wholeRecord {t u : Tree} (h : Alike t u) (p : Path) :
    t.wholeRecord p = u.wholeRecord p := by
  rw [Tree.wholeRecord, Tree.wholeRecord, h.fullName, TypeRecord.ofFields_congr (h.nodeAt p).doc]

/-- Trees that are alike cannot be told apart by resolving, wherever it starts. -/
theorem Tree.simulates_alike : Tree.Simulates Alike fun _ => True where
  rootName h := h.rootName
  resolution h _ := (h.nodeAt _).resolution
  wholeRecord h _ := h.wholeRecord _
  target _ _ _ := trivial
  ensure h _ := h.ensure _ true
  settle _ h _ := h.modify _ fun _ _ hnm => ⟨hnm.path, hnm.doc, hnm.synthetic, rfl⟩

/-- Two operations with the same result that leave trees alike. -/
structure Progress.Alike {α : Type} (x y : Progress α) : Prop where
  tree : x.tree.Alike y.tree
  outcome : x.outcome = y.outcome

namespace Exclusion

/-- Resolving all nodes makes trees alike out of trees alike. -/
theorem resolveAll_alike {t u : Tree} (h : t.Alike u) : (resolveAll t).Alike (resolveAll u) := by
  have hfrom {t u : Tree} (h : t.Alike u) (count : Nat) :
      pathsFrom count t = pathsFrom count u := by
    rw [pathsFrom_eq_drop, pathsFrom_eq_drop, h.paths]
  have heach {t u : Tree} (h : t.Alike u) (ps : List Path) :
      (resolveEach t ps).Related Tree.Alike (resolveEach u ps) :=
    resolveEach_related Tree.simulates_alike h ps fun _ _ => trivial
  have hrelated : (resolveAll t).Related Tree.Alike (resolveAll u) := by
    rw [resolveAll, resolveAll, hfrom h, h.size]
    refine (heach h _).andThen fun t' u' _ htu => ?_
    rw [hfrom htu]
    exact heach htu _
  exact ⟨hrelated.tree, hrelated.outcome⟩

end Exclusion

end ApiTypings
