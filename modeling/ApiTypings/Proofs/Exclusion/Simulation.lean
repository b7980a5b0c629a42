import ApiTypings.Proofs.Exclusion.Recursion

/-!
Resolving two trees side by side.

A resolution reads little of a tree: the name of the root, and of each node on its way the record
and whether it is settled. So it takes the same course in two trees that agree on these, where it
passes. `Tree.Simulates` is what a relation between trees has to keep up for this, and from it
follows that the runs of the recursion, and whole rounds of them, end alike in related trees.
-/

namespace ApiTypings

open Exclusion

/-- A relation between trees in which resolving takes the same course, as long as it starts at
certain paths, which nothing on its way leads away from. -/
structure Tree.Simulates (R : Tree → Tree → Prop) (within : Path → Prop) : Prop where
  rootName : ∀ {t u : Tree}, R t u → t.rootName = u.rootName
  resolution : ∀ {t u : Tree} {p : Path}, R t u → within p →
    (t.nodeAt p).resolution = (u.nodeAt p).resolution
  wholeRecord : ∀ {t u : Tree} {p : Path}, R t u → within p → t.wholeRecord p = u.wholeRecord p
  target : ∀ {t u : Tree} {p q : Path}, R t u → within p → t.Extends p q → within q
  ensure : ∀ {t u : Tree} {p : Path}, R t u → within p → R (t.ensure p true) (u.ensure p true)
  settle : ∀ {t u : Tree} {p : Path} (r : Resolution), R t u → within p →
    R (t.modify p fun n => { n with resolution := some r })
      (u.modify p fun n => { n with resolution := some r })

/-- Two operations that write and give the same and leave related trees behind. -/
structure Progress.Related (R : Tree → Tree → Prop) {α : Type} (x y : Progress α) : Prop where
  tree : R x.tree y.tree
  log : x.log = y.log
  outcome : x.outcome = y.outcome

namespace Progress.Related

variable {R : Tree → Tree → Prop} {α β : Type} {x y : Progress α} {f g : Tree → α → Progress β}

theorem andThen (h : x.Related R y) (hfg : ∀ t u a, R t u → (f t a).Related R (g u a)) :
    (x.andThen f).Related R (y.andThen g) := by
  cases hx : x.outcome with
  | error fault =>
      rw [andThen_of_error hx, andThen_of_error (h.outcome.symm.trans hx)]
      exact ⟨h.tree, h.log, rfl⟩
  | ok a =>
      rw [andThen_of_ok hx, andThen_of_ok (h.outcome.symm.trans hx)]
      have hrest := hfg x.tree y.tree a h.tree
      exact ⟨hrest.tree, by rw [h.log, hrest.log], hrest.outcome⟩

theorem after (h : x.Related R y) (log : List Entry) :
    Related R ⟨x.tree, log ++ x.log, x.outcome⟩ ⟨y.tree, log ++ y.log, y.outcome⟩ :=
  ⟨h.tree, congrArg (log ++ ·) h.log, h.outcome⟩

end Progress.Related

namespace Exclusion

variable {R : Tree → Tree → Prop} {within : Path → Prop} {t u : Tree} {p : Path}

theorem settleOne_related (hR : Tree.Simulates R within) (h : R t u) (hp : within p)
    (record : TypeRecord) (inherited : Exclusions) :
    (settleOne t p record inherited).Related R (settleOne u p record inherited) := by
  unfold settleOne
  dsimp only
  split
  · exact ⟨h, rfl, rfl⟩
  · exact ⟨hR.settle _ h hp, rfl, rfl⟩

/-- A run in one of the trees has its like in the other. -/
theorem Descent.simulate (hR : Tree.Simulates R within) {met : List String}
    {x : Progress Exclusions} (hx : Descent t p met x) (h : R t u) (hp : within p) :
    ∃ y, Descent u p met y ∧ x.Related R y := by
  induction hx generalizing u with
  | settled hr => exact ⟨_, .settled (hR.resolution h hp ▸ hr), h, rfl, rfl⟩
  | unreadable hr hwhole =>
      exact ⟨_, .unreadable (hR.resolution h hp ▸ hr) (hR.wholeRecord h hp ▸ hwhole), h, rfl, rfl⟩
  | repeated hr hwhole hmet =>
      exact ⟨_, .repeated (hR.resolution h hp ▸ hr) (hR.wholeRecord h hp ▸ hwhole) hmet, h, rfl,
        rfl⟩
  | top hr hwhole hmet htop =>
      exact ⟨_, .top (hR.resolution h hp ▸ hr) (hR.wholeRecord h hp ▸ hwhole) hmet htop,
        settleOne_related hR h hp _ _⟩
  | @itself t p met record target hr hwhole hmet htarget hself =>
      have hq := hR.target h hp (extends_of_record hwhole htarget)
      have hroot := hR.rootName h
      refine ⟨_, .itself (hR.resolution h hp ▸ hr) (hR.wholeRecord h hp ▸ hwhole) hmet htarget
        (hroot ▸ hself), ?_, ?_, rfl⟩
      · rw [← hroot]
        exact hR.ensure h hq
      · rw [hroot]
  | @further t p met record target up hr hwhole hmet htarget hother hup ih =>
      have hq := hR.target h hp (extends_of_record hwhole htarget)
      have hroot := hR.rootName h
      obtain ⟨y, hy, hrelated⟩ := ih (hR.ensure h hq) hq
      -- The run of the call above is one of the other tree, up to the spelling of the root's name.
      rw [hroot] at hother hy
      refine ⟨_, .further (hR.resolution h hp ▸ hr) (hR.wholeRecord h hp ▸ hwhole) hmet htarget
        hother hy, ?_⟩
      rw [hroot]
      exact (hrelated.after _).andThen fun t u inherited htu => settleOne_related hR htu hp _ _

theorem resolve_related (hR : Tree.Simulates R within) (h : R t u) (hp : within p) :
    (resolve t p).Related R (resolve u p) := by
  obtain ⟨y, hy, hrelated⟩ := (descent_climb t p []).simulate hR h hp
  obtain rfl := hy.unique (descent_climb u p [])
  exact hrelated

/-- Related trees are still related after the same nodes are resolved in both. -/
theorem resolveEach_related (hR : Tree.Simulates R within) (h : R t u) (ps : List Path)
    (hps : ∀ p ∈ ps, within p) : (resolveEach t ps).Related R (resolveEach u ps) := by
  induction ps generalizing t u with
  | nil => exact ⟨h, rfl, rfl⟩
  | cons p rest ih =>
      obtain ⟨hp, hrest⟩ := List.forall_mem_cons.1 hps
      exact (resolve_related hR h hp).andThen fun _ _ _ htu => ih htu hrest

end Exclusion

end ApiTypings
