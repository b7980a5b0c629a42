import ApiTypings.Proofs.Declaration.Stages
import ApiTypings.Proofs.Exclusion.Request

/-!
Resolving and rendering once more.

A node that is settled is left alone by every later resolution, so a tree in which all nodes are
settled does not change any more, whether it is resolved or rendered. Rendering any other tree is
resolving it first. The file is therefore the same whether a tree is resolved before or not, and
however often it is rendered.
-/

namespace ApiTypings

open Exclusion

/-! ### Settled nodes -/

namespace Exclusion

variable {t u : Tree} {p : Path}

/-- The climb stops where it starts, and there is nothing to settle. -/
theorem resolve_of_resolution {r : Resolution} (hr : (t.nodeAt p).resolution = some r) :
    resolve t p = ⟨t, [], .ok r.excluded⟩ := by
  have hclimb : climb t p [] = ⟨t, [], .ok ⟨[], r.excluded⟩⟩ := by
    rw [climb]
    split
    next settled hsettled => rw [Option.some.inj (hr.symm.trans hsettled)]
    next hnone => simp [hr] at hnone
  rw [resolve, hclimb]
  rfl

theorem resolveEach_of_resolution {ps : List Path}
    (hps : ∀ p ∈ ps, ∃ r, (t.nodeAt p).resolution = some r) :
    resolveEach t ps = ⟨t, [], .ok ()⟩ := by
  induction ps with
  | nil => rfl
  | cons p rest ih =>
      obtain ⟨⟨r, hr⟩, hrest⟩ := List.forall_mem_cons.1 hps
      rw [resolveEach, resolve_of_resolution hr, Progress.andThen_of_ok rfl, ih hrest]
      rfl

/-- A settled tree is resolved by doing nothing. -/
theorem resolveAll_of_isSettled (h : isSettled t = true) : resolveAll t = ⟨t, [], .ok ()⟩ := by
  have hsettled (count : Nat) (p : Path) (hp : p ∈ pathsFrom count t) :
      ∃ r, (t.nodeAt p).resolution = some r :=
    Option.isSome_iff_exists.1
      (List.all_eq_true.1 h _ (Tree.nodeAt_mem_nodes (mem_paths_of_mem_pathsFrom hp)))
  rw [resolveAll, resolveEach_of_resolution (hsettled 0), Progress.andThen_of_ok rfl,
    resolveEach_of_resolution (hsettled t.size)]
  rfl

end Exclusion

/-! ### Rendering -/

namespace Declaration

variable {options : Options} {t u : Tree} {text : String}

/-- Rendering is resolving and then declaring what is there, since resolving a settled tree does
nothing. -/
theorem render_eq (options : Options) (t : Tree) :
    render options t = (resolveAll t).andThen fun u _ =>
      ⟨u, (treeBody options u).log, (treeBody options u).outcome.map (fileText u.version)⟩ := by
  rw [render]
  split
  next hsettled => rw [resolveAll_of_isSettled hsettled]; rfl
  · rfl

/-- A tree that is rendered has been resolved, and is as it was resolved. -/
theorem render_ok (h : (render options t).outcome = .ok text) :
    (resolveAll t).outcome = .ok () ∧ (render options t).tree = (resolveAll t).tree ∧
      (treeBody options (resolveAll t).tree).outcome.map (fileText (resolveAll t).tree.version) =
        .ok text := by
  rw [render_eq] at h ⊢
  obtain ⟨⟨⟩, hok, hbody, htree⟩ := Progress.andThen_eq_ok h
  exact ⟨hok, htree, hbody⟩

theorem tree_render_of_isSettled (options : Options) (h : isSettled t = true) :
    (render options t).tree = t := by
  rw [render_eq, resolveAll_of_isSettled h]
  rfl

/-- A tree for which resolving and rendering make no difference any more once they have
succeeded. -/
structure Stable (options : Options) (t : Tree) : Prop where
  settled : (resolveAll t).outcome = .ok () → isSettled (resolveAll t).tree = true
  resolved : (resolveAll t).outcome = .ok () →
    resolveAll (resolveAll t).tree = ⟨(resolveAll t).tree, [], .ok ()⟩
  rendered : ∀ text, (render options t).outcome = .ok text →
    (render options (render options t).tree).outcome = .ok text ∧
      (render options (render options t).tree).tree = (render options t).tree
  resolvedFirst : ∀ text, (render options t).outcome = .ok text →
    (resolveAll t).outcome = .ok () ∧ (render options t).tree = (resolveAll t).tree ∧
      (render options (resolveAll t).tree).outcome = .ok text

theorem Stable.of_memo (h : t.Memo) (options : Options) : Stable options t := by
  have hsettled := isSettled_of_resolveAll h
  have hagain (text : String) (htext : (render options t).outcome = .ok text) :
      (render options (resolveAll t).tree).outcome = .ok text := by
    obtain ⟨hok, -, hbody⟩ := render_ok htext
    rw [outcome_render_of_isSettled (hsettled hok), hbody]
  refine ⟨hsettled, fun hok => resolveAll_of_isSettled (hsettled hok), ?_, ?_⟩
  · intro text htext
    obtain ⟨hok, htree, -⟩ := render_ok htext
    rw [htree]
    exact ⟨hagain text htext, tree_render_of_isSettled options (hsettled hok)⟩
  · intro text htext
    obtain ⟨hok, htree, -⟩ := render_ok htext
    exact ⟨hok, htree, hagain text htext⟩

/-- Whichever nodes of a built tree are resolved before, and whether or not this fails, resolving
all of them is then done once and for all, and rendering is the same with and without it, and the
same each time. -/
theorem stable_performAll {apis : Fields} {rootName : String}
    (hbuild : (Tree.build (.obj apis) rootName).outcome = .ok t) (requests : List Request)
    (options : Options) : Stable options (performAll t requests) :=
  .of_memo (performAll_spec (Tree.memo_build hbuild) requests).1 options

/-- One of two types is resolved before the tree is rendered. -/
theorem stable_performAll_inheritingRecords :
    (Tree.build (.obj inheritingRecords) "Global").outcome = .ok inheritingTree ∧
      isSettled (performAll inheritingTree [.node 2]) = false ∧
      (∃ text, (render .standard (performAll inheritingTree [.node 2])).outcome = .ok text) ∧
      Stable .standard (performAll inheritingTree [.node 2]) := by
  have hbuild : (Tree.build (.obj inheritingRecords) "Global").outcome = .ok inheritingTree := by
    rfl
  have hresolved := show resolveAll (performAll inheritingTree [.node 2]) = _ by cbv
  have hbranch := show (resolveAll (performAll inheritingTree [.node 2])).tree.rootBranch = _ by cbv
  obtain ⟨body, hbody⟩ : ∃ body,
      (treeBody .standard (resolveAll (performAll inheritingTree [.node 2])).tree).outcome =
        .ok body := by
    rw [treeBody, hbranch, hresolved]
    exact ⟨_, rfl⟩
  refine ⟨hbuild, by cbv, ?_, stable_performAll hbuild [.node 2] .standard⟩
  rw [render_eq, Progress.andThen_of_ok (by rw [hresolved]), hbody]
  exact ⟨_, rfl⟩

end Declaration

end ApiTypings
