import ApiTypings.Proofs.Exclusion.Recursion

/-!
What resolving keeps.

Resolving changes a tree in two ways only: it makes sure of a synthetic path, and it settles a node.
What both of these keep, every resolution keeps, whether or not it succeeds.
-/

namespace ApiTypings

open Exclusion

/-- A property of trees that is kept by the two changes that resolving makes. -/
structure Tree.Kept (P : Tree → Prop) : Prop where
  ensure : ∀ {t : Tree} (p : Path), P t → P (t.ensure p true)
  settle : ∀ {t : Tree} (p : Path) (r : Resolution), P t →
    P (t.modify p fun n => { n with resolution := some r })

namespace Exclusion

variable {P : Tree → Prop} {t : Tree}

theorem kept_climb (hP : Tree.Kept P) (h : P t) (p : Path) (met : List String) :
    P (climb t p met).tree := by
  fun_induction climb t p met with
  | case5 => exact hP.ensure _ h
  | case6 t p met _ record _ _ target _ above remarks _ up ih => exact ih (hP.ensure _ h)
  | _ => exact h

theorem kept_settleOne (hP : Tree.Kept P) (h : P t) (p : Path) (record : TypeRecord)
    (inherited : Exclusions) : P (settleOne t p record inherited).tree := by
  unfold settleOne
  dsimp only
  split
  · exact h
  · exact hP.settle p _ h

theorem kept_andThen {α β : Type} {x : Progress α} {f : Tree → α → Progress β} (hx : P x.tree)
    (hf : ∀ u a, P u → P (f u a).tree) : P (x.andThen f).tree := by
  cases h : x.outcome with
  | error fault => rwa [Progress.andThen_of_error h]
  | ok a =>
      rw [Progress.andThen_of_ok h]
      exact hf _ a hx

theorem kept_settle (hP : Tree.Kept P) (h : P t) (pending : List (Path × TypeRecord))
    (inherited : Exclusions) : P (settle t pending inherited).tree := by
  induction pending generalizing t inherited with
  | nil => exact h
  | cons entry rest ih =>
      exact kept_andThen (kept_settleOne hP h _ _ _) fun _ passed hu => ih hu passed

theorem kept_resolve (hP : Tree.Kept P) (h : P t) (p : Path) : P (resolve t p).tree :=
  kept_andThen (kept_climb hP h p []) fun _ _ hu => kept_settle hP hu _ _

theorem kept_resolveEach (hP : Tree.Kept P) (h : P t) (ps : List Path) :
    P (resolveEach t ps).tree := by
  induction ps generalizing t with
  | nil => exact h
  | cons p rest ih => exact kept_andThen (kept_resolve hP h p) fun _ _ hu => ih hu

theorem Descent.kept {P : Tree → Prop} (hP : Tree.Kept P) (h : Descent t p met x) (ht : P t) :
    P x.tree := by
  rw [h.unique (descent_climb t p met)]
  exact kept_andThen (kept_climb hP ht p met) fun _ _ hu => kept_settle hP hu _ _

theorem kept_mem_paths (p : Path) : Tree.Kept fun u => p ∈ u.paths where
  ensure {t} q h := by
    obtain ⟨n, hn, hpath⟩ := Tree.mem_paths.1 h
    obtain ⟨added, hnodes, -⟩ := Tree.nodes_ensure_synthetic t q
    exact Tree.mem_paths.2 ⟨n, hnodes ▸ List.mem_append_left _ hn, hpath⟩
  settle {t} q r h := by
    rwa [Tree.paths_modify (f := fun n => { n with resolution := some r }) fun _ => rfl]

/-- Resolving changes no document, and no other way of telling what names mean. -/
theorem kept_docs (t : Tree) : Tree.Kept fun u => u.rootName = t.rootName ∧
    u.fromEnd = t.fromEnd ∧ ∀ p, (u.nodeAt p).doc = (t.nodeAt p).doc where
  ensure {u} q h := ⟨(Tree.rootName_ensure u q true).trans h.1,
    (Tree.fromEnd_ensure u q true).trans h.2.1,
    fun p => (Tree.doc_nodeAt_ensure true u q p).trans (h.2.2 p)⟩
  settle {u} q r h := by
    refine ⟨h.1, h.2.1, fun p => ?_⟩
    rw [Tree.nodeAt_modify (f := fun n => { n with resolution := some r }) fun _ => rfl, ← h.2.2]
    split
    next hp => rw [hp.1]
    · rfl

end Exclusion

end ApiTypings
