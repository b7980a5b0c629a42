import ApiTypings.Proofs.Declaration.Sharing
import ApiTypings.Proofs.Exclusion.Without

/-!
Adding an unrelated type.

A record that is added behind all others, under a top-level name that nothing so far is recorded
under or extends, makes a tree that is the old one without that name, before the nodes are resolved
and afterwards. So all other declarations stay as they were.
-/

namespace ApiTypings

open Exclusion Declaration

namespace Tree

variable {rootName key s : String} {rest : Path} {apis api : Fields} {t u : Tree}

/-! ### Building -/

theorem addRecords_append (t : Tree) (xs ys : List (String × Json)) :
    t.addRecords (xs ++ ys) = (t.addRecords xs).andThen fun u _ => u.addRecords ys := by
  induction xs generalizing t with
  | nil =>
      rw [List.nil_append, addRecords, Progress.andThen_of_ok rfl]
      rfl
  | cons entry rest ih =>
      obtain ⟨key, v⟩ := entry
      cases v with
      | obj api =>
          rw [List.cons_append, addRecords, addRecords, Progress.andThen_assoc]
          exact congrArg _ (funext fun u => funext fun _ => ih u)
      | _ => exact ih t

/-- A record at the end states no version. -/
theorem versionOf_concat (apis : Fields) (key : String) (api : Fields) :
    versionOf (apis ++ [(key, .obj api)]) = versionOf apis := by
  rw [versionOf, versionOf, Fields.get, Fields.get, Fields.get?_append, Fields.get?_cons]
  cases Fields.get? apis versionKey with
  | some v => rfl
  | none =>
      split
      · rfl
      · rfl

/-- A record at the end is merged into the tree of the records before it. -/
theorem build_concat (ht : (build (.obj apis) rootName).outcome = .ok t)
    (hu : (build (.obj (apis ++ [(key, .obj api)])) rootName).outcome = .ok u) :
    ∃ q, (t.addRecord api key).outcome = .ok q ∧ (t.addRecord api key).tree = u := by
  rw [outcome_build] at ht hu
  rw [versionOf_concat, addRecords_append] at hu
  cases hfirst : ((rooted rootName (versionOf apis)).addRecords apis).outcome with
  | error fault => simp [hfirst, Except.map] at ht
  | ok _ =>
      rw [hfirst] at ht
      obtain rfl := Except.ok.inj ht
      rw [Progress.andThen_of_ok hfirst] at hu
      generalize ((rooted rootName (versionOf apis)).addRecords apis).tree = t at hu ⊢
      rw [addRecords] at hu
      cases hadd : (t.addRecord api key).outcome with
      | error fault => simp [Progress.andThen_of_error hadd, Except.map] at hu
      | ok q =>
          rw [Progress.andThen_of_ok hadd] at hu
          exact ⟨q, rfl, Except.ok.inj hu⟩

/-! ### The added record -/

/-- A record that is added behind a description, with the trees before and after. Its path starts
with a segment that starts no other path of a record and none that is extended, and what it extends
itself is there. -/
structure Unrelated (rootName : String) (apis : Fields) (key : String) (api : Fields) (s : String)
    (rest : Path) (t u : Tree) : Prop where
  placed : placement? rootName (key, .obj api) = some (s :: rest, api)
  before : (build (.obj apis) rootName).outcome = .ok t
  after : (build (.obj (apis ++ [(key, .obj api)])) rootName).outcome = .ok u
  records : ∀ r ∈ placements rootName apis, r.1.isUnder s = false
  targets : ∀ p q, t.Extends p q → q.isUnder s = false
  own : ∀ q, u.Extends (s :: rest) q → q ∈ u.paths

theorem Unrelated.outside (h : Unrelated rootName apis key api s rest t u) :
    ∀ p ∈ t.paths, p.isUnder s = false := by
  intro p hp
  rcases (mirrors_build h.before).mem_paths.1 hp with rfl | ⟨r, hr, hpr⟩
  · rfl
  · exact (Path.isUnder_of_mem_steps hpr).trans (h.records r hr)

theorem Unrelated.added (h : Unrelated rootName apis key api s rest t u) :
    ∃ doc, u = (t.ensure (s :: rest) false).modify (s :: rest) fun n => { n with doc } := by
  obtain ⟨q, hok, htree⟩ := build_concat h.before h.after
  have hplaced := h.placed
  rw [← (mirrors_build h.before).root] at hplaced
  obtain ⟨hnone, -⟩ | ⟨p, doc, hplace, -, hdoc⟩ := addRecord_of_ok hok
  · simp [hnone] at hplaced
  · obtain ⟨rfl, -⟩ := Prod.mk.inj (Option.some.inj (hplace.symm.trans hplaced))
    exact ⟨doc, htree.symm.trans hdoc⟩

theorem Unrelated.without_eq (h : Unrelated rootName apis key api s rest t u) :
    u.without s = t := by
  obtain ⟨doc, rfl⟩ := h.added
  have hunder := Path.isUnder_cons s rest
  rw [without_modify_inside (f := fun n => { n with doc }) (fun _ => rfl) hunder,
    without_ensure_inside false hunder, without_of_outside h.outside]

theorem Unrelated.mem_paths (h : Unrelated rootName apis key api s rest t u) : [s] ∈ u.paths := by
  have hproper := (memo_build h.after).proper
  obtain ⟨doc, hu⟩ := h.added
  have hmem : s :: rest ∈ u.paths := by
    rw [hu, paths_modify (f := fun n => { n with doc }) fun _ => rfl]
    exact (mirrors_build h.before).proper.mem_paths_ensure_self
  exact hproper.closed _ hmem _ (Path.mem_steps.2 ⟨by simp, ⟨rest, rfl⟩⟩)

/-- The nodes of the record are behind all others. -/
theorem Unrelated.comesLast (h : Unrelated rootName apis key api s rest t u) : u.ComesLast s := by
  have hm := mirrors_build h.before
  refine ⟨memo_build h.after, ?_, ?_, ?_⟩
  · rw [h.without_eq]
    obtain ⟨doc, rfl⟩ := h.added
    rw [paths_modify (f := fun n => { n with doc }) fun _ => rfl, hm.proper.paths_ensure,
      List.eraseDups_append, eraseDups_of_nodup hm.proper.nodup]
    refine ⟨_, rfl, fun p hp => ?_⟩
    have hstep := List.mem_of_mem_filter (List.mem_eraseDups.1 hp)
    exact (Path.isUnder_of_mem_steps hstep).trans (Path.isUnder_cons s rest)
  · intro p q hp hpq
    have hold := extended?_without (t := u) hp
    rw [h.without_eq] at hold
    exact h.targets p q (hold.trans hpq)
  · intro p q hp hpq
    -- Of the nodes inside, only that of the record has a document and can extend anything.
    by_cases hpath : p = s :: rest
    · exact h.own q (hpath ▸ hpq)
    · obtain ⟨doc, hu⟩ := h.added
      have hnew : p ∉ t.paths := fun hmem => by simp [h.outside p hmem] at hp
      have hdoc : (u.nodeAt p).doc = [] := by
        rw [hu, nodeAt_modify (f := fun n => { n with doc }) fun _ => rfl,
          if_neg fun hp => hpath hp.1, doc_nodeAt_ensure, nodeAt_of_not_mem hnew]
        rfl
      rw [Extends, extended?_of_doc_nil hdoc] at hpq
      simp at hpq

end Tree

/-! ### The declarations -/

namespace Declaration

variable {options : Options} {s : String} {t u : Tree}

/-- A resolved tree that has one more name on its top level than another one, and otherwise the same
blocks and the same global members. -/
structure Beside (options : Options) (s : String) (t u : Tree) : Prop where
  blocks : ∀ n ∈ t.childrenOf [], n ∈ u.childrenOf [] ∧ nodeText options u n = nodeText options t n
  members : globalMembers (contextOf options u) (u.nodeAt []) =
    globalMembers (contextOf options t) (t.nodeAt [])
  added : ∃ before n after, n.path = [s] ∧ u.childrenOf [] = before ++ n :: after ∧
    t.childrenOf [] = before ++ after

theorem contextOf_without (ht : t.fromEnd = []) :
    contextOf options (t.without s) = contextOf options t := by
  rw [contextOf, contextOf, funext (Tree.fullName_without ht), Tree.rootName_without]

/-- Leaving out a name of the top level takes one node out of those declared there. -/
theorem childrenOf_root_cut (ht : t.Proper) (hs : [s] ∈ t.paths) :
    ∃ before n after, n.path = [s] ∧ t.childrenOf [] = before ++ n :: after ∧
      (t.without s).childrenOf [] = before ++ after := by
  have hmem : t.nodeAt [s] ∈ t.childrenOf [] :=
    List.mem_filter.2 ⟨Tree.nodeAt_mem_nodes hs, by rw [Tree.path_nodeAt]; rfl⟩
  obtain ⟨before, after, hsplit⟩ := List.append_of_mem hmem
  refine ⟨before, t.nodeAt [s], after, Tree.path_nodeAt t [s], hsplit, ?_⟩
  have hnodup : (before ++ t.nodeAt [s] :: after).Nodup :=
    hsplit ▸ (List.Nodup.of_map _ ht.nodup).filter _
  rw [List.nodup_middle, List.nodup_cons] at hnodup
  have hother : ∀ n ∈ before ++ after, n.path.isUnder s = false := by
    intro n hn
    have hchild : n ∈ t.childrenOf [] :=
      hsplit ▸ List.perm_middle.symm.subset (List.mem_cons_of_mem _ hn)
    obtain ⟨hnode, hroot⟩ := List.mem_filter.1 hchild
    by_contra hunder
    have hpath := Path.eq_of_isUnder hroot (Bool.of_not_eq_false hunder)
    exact hnodup.1 (hpath ▸ (Tree.nodeAt_path ht.nodup hnode).symm ▸ hn)
  rw [Tree.childrenOf_root_without, hsplit, List.filter_append, List.filter_cons_of_neg,
    ← List.filter_append, List.filter_eq_self.2]
  · intro n hn
    rw [hother n hn]
    rfl
  · rw [Tree.path_nodeAt, Path.isUnder_cons]
    simp

theorem beside_without (ht : t.Proper) (hs : [s] ∈ t.paths) :
    Beside options s (t.without s) t where
  blocks n hn := by
    rw [Tree.childrenOf_root_without, List.mem_filter] at hn
    obtain ⟨hn, hunder⟩ := hn
    have hne : n.path ≠ [] := by
      rintro hnil
      have hchild := (List.mem_filter.1 hn).2
      rw [hnil] at hchild
      simp [Path.isChildOf] at hchild
    refine ⟨hn, ?_⟩
    rw [nodeText, nodeText, contextOf_without ht.fromEnd,
      Tree.branch_without hne (by simpa using hunder)]
  members := by
    rw [contextOf_without ht.fromEnd, Tree.nodeAt_without (Path.isUnder_nil s)]
  added := childrenOf_root_cut ht hs

/-- If there are declarations with an unrelated record, then all nodes can be resolved without it,
and its top-level name comes beside the others, of which each is declared as it was. -/
theorem beside_of_unrelated {apis api : Fields} {key text : String} {rest : Path}
    (h : Tree.Unrelated options.rootName apis key api s rest t u)
    (htext : (generate options (.obj (apis ++ [(key, .obj api)]))).outcome = .ok text) :
    (resolveAll t).outcome = .ok () ∧
      Beside options s (resolveAll t).tree (resolveAll u).tree := by
  have hlast := h.comesLast
  have hsound := sound_resolveAll hlast.memo
  rw [outcome_generate_of_build h.after] at htext
  cases hok : (resolveAll u).outcome with
  | error fault => simp [hok, Except.bind] at htext
  | ok _ =>
      obtain ⟨htree, hfirst⟩ := resolveAll_without hlast hok
      rw [h.without_eq] at htree hfirst
      exact ⟨hfirst,
        htree ▸ beside_without hsound.memo.proper (hsound.grows.mem_paths h.mem_paths)⟩

/-- A record to be added to `inheritingRecords`. -/
def lateRecord : Fields := [("extends", .str "A"), ("methods", .arr [.obj [("name", .str "h")]])]

/-- The tree of `inheritingRecords` and `lateRecord`. -/
def lateTree : Tree :=
  { inheritingTree with
    nodes := inheritingTree.nodes ++
      [Node.blank ["X"] false, ⟨["X", "Y"], lateRecord, false, none⟩] }

theorem beside_of_unrelated_lateRecord :
    ∃ text, Tree.Unrelated "Global" inheritingRecords "X.Y" lateRecord "X" ["Y"] inheritingTree
        lateTree ∧
      (generate .standard (.obj (inheritingRecords ++ [("X.Y", .obj lateRecord)]))).outcome =
        .ok text ∧
      Beside .standard "X" (resolveAll inheritingTree).tree (resolveAll lateTree).tree := by
  have hunrelated : Tree.Unrelated "Global" inheritingRecords "X.Y" lateRecord "X" ["Y"]
      inheritingTree lateTree := by
    refine ⟨by rfl, by rfl, by rfl, by decide +kernel, ?_, ?_⟩
    · intro p q hpq
      have hp : p ∈ [[], ["A"], ["B"]] := Tree.path_mem_of_extends hpq
      simp only [List.mem_cons, List.not_mem_nil, or_false] at hp
      rcases hp with rfl | rfl | rfl
      · exact nomatch (show none = some q from hpq)
      · obtain rfl : ["B"] = q := Option.some.inj hpq
        rfl
      · obtain rfl : ["Missing", "C"] = q := Option.some.inj hpq
        rfl
    · intro q hq
      obtain rfl : ["A"] = q := Option.some.inj hq
      decide +kernel
  have hresolved := show resolveAll lateTree = _ by cbv
  have hok : (resolveAll lateTree).outcome = .ok () := by rw [hresolved]
  have hbranch := show (resolveAll lateTree).tree.rootBranch = _ by cbv
  obtain ⟨body, hbody⟩ : ∃ body,
      (treeBody .standard (resolveAll lateTree).tree).outcome = .ok body := by
    rw [treeBody, hbranch, hresolved]
    exact ⟨_, rfl⟩
  have hbuild : (Tree.build (.obj (inheritingRecords ++ [("X.Y", .obj lateRecord)]))
      Options.standard.rootName).outcome = .ok lateTree := hunrelated.after
  have htext := outcome_generate_of_resolveAll hbuild hok
  rw [hbody, Except.map] at htext
  exact ⟨_, hunrelated, htext, (beside_of_unrelated hunrelated htext).2⟩

end Declaration

end ApiTypings
