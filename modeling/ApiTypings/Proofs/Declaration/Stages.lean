import ApiTypings.Declaration.File
import ApiTypings.Proofs.Exclusion.Closure

/-!
The stages of a generation.

A description is built into a tree, all nodes of the tree are resolved, and the resolved tree is
rendered. The journal kept on the way has no influence on what comes out, so the outcome of a
generation is that of the three stages in a row. Rendering would resolve the tree once more, but
after a resolution that succeeded there is nothing left to resolve.
-/

namespace ApiTypings.Declaration

open Exclusion

variable {options : Options} {t : Tree}

/-- The file around the declarations of a tree. -/
def fileText (version body : String) : String := header version ++ body ++ footer

theorem fileText_injective {version a b : String} (h : fileText version a = fileText version b) :
    a = b := by
  simpa [fileText] using h

theorem isSettled_of_resolveAll (h : t.Memo) (hok : (resolveAll t).outcome = .ok ()) :
    isSettled (resolveAll t).tree = true := by
  have hmemo := (sound_resolveAll h).memo
  refine List.all_eq_true.2 fun n hn => ?_
  obtain ⟨r, hr⟩ := resolution_of_resolveAll h hok (Tree.mem_paths.2 ⟨n, hn, rfl⟩)
  rw [Tree.nodeAt_path hmemo.proper.nodup hn] at hr
  rw [hr]
  rfl

theorem outcome_render_of_isSettled (h : isSettled t = true) :
    (render options t).outcome = (treeBody options t).outcome.map (fileText t.version) := by
  rw [render, if_pos h, Progress.andThen_of_ok rfl]
  rfl

theorem outcome_toReport {α : Type} (x : Progress α) :
    x.toReport.outcome = x.outcome.map fun a => (x.tree, a) := rfl

theorem outcome_generate (options : Options) (apis : Json) :
    (generate options apis).outcome =
      (Tree.build apis options.rootName).outcome.bind fun t =>
        (resolveAll t).outcome.bind fun _ => (render options (resolveAll t).tree).outcome := by
  rw [generate, Report.outcome_bind, Report.outcome_tell, Except.bind, Report.outcome_bind]
  congr 1
  funext t
  rw [Report.outcome_bind, outcome_toReport]
  cases (resolveAll t).outcome with
  | error fault => rfl
  | ok _ =>
      dsimp only [Except.map, Except.bind]
      rw [Report.outcome_bind, outcome_toReport]
      cases (render options (resolveAll t).tree).outcome <;> rfl

/-- A generation goes through its stages: a fault of an earlier one is its outcome, and otherwise
the outcome is that of rendering the resolved tree as it is. -/
theorem outcome_generate_of_build {apis : Fields}
    (hbuild : (Tree.build (.obj apis) options.rootName).outcome = .ok t) :
    (generate options (.obj apis)).outcome = (resolveAll t).outcome.bind fun _ =>
      (treeBody options (resolveAll t).tree).outcome.map
        (fileText (resolveAll t).tree.version) := by
  rw [outcome_generate, hbuild, Except.bind]
  cases hok : (resolveAll t).outcome with
  | error fault => rfl
  | ok _ =>
      have hsettled := isSettled_of_resolveAll (Tree.memo_build hbuild) hok
      dsimp only [Except.bind]
      exact outcome_render_of_isSettled hsettled

theorem outcome_generate_of_resolveAll {apis : Fields}
    (hbuild : (Tree.build (.obj apis) options.rootName).outcome = .ok t)
    (hok : (resolveAll t).outcome = .ok ()) :
    (generate options (.obj apis)).outcome =
      (treeBody options (resolveAll t).tree).outcome.map
        (fileText (resolveAll t).tree.version) := by
  rw [outcome_generate_of_build hbuild, hok, Except.bind]

end ApiTypings.Declaration
