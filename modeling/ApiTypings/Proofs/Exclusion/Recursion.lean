import ApiTypings.Proofs.Exclusion.Closure

/-!
Resolving as a recursion inside a loop.

Exclusions can be resolved by a recursion that settles a node on its way back, from a loop that
visits one position after another while the tree may still grow. `Descent` and `Sweep` are the
finite runs of these two. Whatever the tree, both have a run, and its result is that of the climb
followed by settling, and of the two rounds of `resolveAll`. So the recursion and the loop end.
-/

namespace ApiTypings.Exclusion

/-- The runs of the recursion: `Descent t p met x` if, asked to resolve the node at `p` with the
record names `met` on the way to it, it ends with `x`. -/
inductive Descent : Tree → Path → List String → Progress Exclusions → Prop
  | settled {t : Tree} {p : Path} {met : List String} {r : Resolution}
      (hr : (t.nodeAt p).resolution = some r) : Descent t p met ⟨t, [], .ok r.excluded⟩
  | unreadable {t : Tree} {p : Path} {met : List String} {fault : Fault}
      (hr : (t.nodeAt p).resolution = none) (hwhole : t.wholeRecord p = .error fault) :
      Descent t p met ⟨t, [], .error fault⟩
  | repeated {t : Tree} {p : Path} {met : List String} {record : TypeRecord}
      (hr : (t.nodeAt p).resolution = none) (hwhole : t.wholeRecord p = .ok record)
      (hmet : record.name ∈ met) :
      Descent t p met ⟨t, [], .error (.cycle (met ++ [record.name]))⟩
  | top {t : Tree} {p : Path} {met : List String} {record : TypeRecord}
      (hr : (t.nodeAt p).resolution = none) (hwhole : t.wholeRecord p = .ok record)
      (hmet : record.name ∉ met) (htop : record.extends? = none) :
      Descent t p met (settleOne t p record .empty)
  | itself {t : Tree} {p : Path} {met : List String} {record : TypeRecord} {target : String}
      (hr : (t.nodeAt p).resolution = none) (hwhole : t.wholeRecord p = .ok record)
      (hmet : record.name ∉ met) (htarget : record.extends? = some target)
      (hself : Path.ofName t.rootName target = p) :
      Descent t p met ⟨t.ensure (Path.ofName t.rootName target) true,
        Tree.pathRemarks t.rootName target, .error (.cycle (met ++ [record.name, target]))⟩
  | further {t : Tree} {p : Path} {met : List String} {record : TypeRecord} {target : String}
      {up : Progress Exclusions} (hr : (t.nodeAt p).resolution = none)
      (hwhole : t.wholeRecord p = .ok record) (hmet : record.name ∉ met)
      (htarget : record.extends? = some target) (hother : Path.ofName t.rootName target ≠ p)
      (hup : Descent (t.ensure (Path.ofName t.rootName target) true)
        (Path.ofName t.rootName target) (met ++ [record.name]) up) :
      Descent t p met
        (Progress.andThen ⟨up.tree, Tree.pathRemarks t.rootName target ++ up.log, up.outcome⟩
          fun u inherited => settleOne u p record inherited)

/-- The runs of the loop: `Sweep t i x` if, started at position `i`, it ends with `x`. -/
inductive Sweep : Tree → Nat → Progress Unit → Prop
  | done {t : Tree} {i : Nat} (hi : t.nodes[i]? = none) : Sweep t i ⟨t, [], .ok ()⟩
  | failed {t : Tree} {i : Nat} {n : Node} {x : Progress Exclusions} {fault : Fault}
      (hi : t.nodes[i]? = some n) (hone : Descent t n.path [] x)
      (hfault : x.outcome = .error fault) : Sweep t i ⟨x.tree, x.log, .error fault⟩
  | next {t : Tree} {i : Nat} {n : Node} {x : Progress Exclusions} {y : Progress Unit}
      {e : Exclusions} (hi : t.nodes[i]? = some n) (hone : Descent t n.path [] x)
      (hok : x.outcome = .ok e) (hrest : Sweep x.tree (i + 1) y) :
      Sweep t i ⟨y.tree, x.log ++ y.log, y.outcome⟩

/-! ### The recursion -/

theorem Descent.unique {t : Tree} {p : Path} {met : List String} {x y : Progress Exclusions}
    (hx : Descent t p met x) (hy : Descent t p met y) : x = y := by
  induction hx generalizing y with
  | settled hr => cases hy <;> simp_all
  | unreadable hr hwhole => cases hy <;> simp_all
  | repeated hr hwhole hmet => cases hy <;> simp_all
  | top hr hwhole hmet htop => cases hy <;> simp_all
  | itself hr hwhole hmet htarget hself => cases hy <;> simp_all
  | further hr hwhole hmet htarget hother hup ih =>
      cases hy with
      | further _ hwhole' _ htarget' _ hup' =>
          obtain rfl := Except.ok.inj (hwhole.symm.trans hwhole')
          obtain rfl := Option.some.inj (htarget.symm.trans htarget')
          rw [ih hup']
      | _ => simp_all

theorem settle_singleton (t : Tree) (p : Path) (record : TypeRecord) (inherited : Exclusions) :
    settle t [(p, record)] inherited = settleOne t p record inherited := by
  rw [settle]
  cases hok : (settleOne t p record inherited).outcome with
  | error fault => rw [Progress.andThen_of_error hok, ← hok]
  | ok passed => rw [Progress.andThen_of_ok hok, settle, List.append_nil, ← hok]

/-- The node farthest down is settled last. -/
theorem settle_concat (t : Tree) (pending : List (Path × TypeRecord)) (p : Path)
    (record : TypeRecord) (inherited : Exclusions) :
    settle t (pending ++ [(p, record)]) inherited =
      (settle t pending inherited).andThen fun u passed => settleOne u p record passed := by
  induction pending generalizing t inherited with
  | nil =>
      rw [List.nil_append, settle_singleton, settle, Progress.andThen_of_ok rfl]
      rfl
  | cons entry rest ih =>
      obtain ⟨q, upper⟩ := entry
      rw [List.cons_append, settle, settle, Progress.andThen_assoc]
      exact congrArg _ (funext fun u => funext fun passed => ih u passed)

/-- The recursion ends, with the result of the climb followed by settling. -/
theorem descent_climb (t : Tree) (p : Path) (met : List String) :
    Descent t p met
      ((climb t p met).andThen fun u l => settle u l.pending l.inherited) := by
  fun_induction climb t p met with
  | case1 t p met settled hsettled => exact .settled hsettled
  | case2 t p met hr fault hwhole => exact .unreadable hr hwhole
  | case3 t p met hr record hwhole hmet => exact .repeated hr hwhole hmet
  | case4 t p met hr record hwhole hmet htop =>
      rw [Progress.andThen_of_ok rfl, List.nil_append, settle_singleton]
      exact .top hr hwhole hmet htop
  | case5 t met record hmet target htarget above remarks hr hwhole =>
      exact .itself hr hwhole hmet htarget rfl
  | case6 t p met hr record hwhole hmet target htarget above remarks hne up ih =>
      -- The recursion settles the node after its call, and so the node is settled last.
      have hfurther := Descent.further hr hwhole hmet htarget hne ih
      have hpush := Progress.andThen_map ⟨up.tree, remarks ++ up.log, up.outcome⟩
        (·.push p record) fun u l => settle u l.pending l.inherited
      simp only [Lineage.push, settle_concat] at hpush
      rw [Progress.andThen_after, Progress.andThen_assoc, ← Progress.andThen_after, ← hpush]
        at hfurther
      exact hfurther

/-! ### The loop -/

variable {t u : Tree}

theorem Sweep.unique {i : Nat} {x y : Progress Unit} (hx : Sweep t i x) (hy : Sweep t i y) :
    x = y := by
  induction hx generalizing y with
  | done hi => cases hy <;> simp_all
  | failed hi hone hfault =>
      cases hy with
      | done hi' => simp_all
      | failed hi' hone' hfault' =>
          obtain rfl := Option.some.inj (hi.symm.trans hi')
          obtain rfl := hone.unique hone'
          rw [Except.error.inj (hfault.symm.trans hfault')]
      | next hi' hone' hok' _ =>
          obtain rfl := Option.some.inj (hi.symm.trans hi')
          obtain rfl := hone.unique hone'
          exact absurd (hfault.symm.trans hok') (by simp)
  | next hi hone hok hrest ih =>
      cases hy with
      | done hi' => simp_all
      | failed hi' hone' hfault' =>
          obtain rfl := Option.some.inj (hi.symm.trans hi')
          obtain rfl := hone.unique hone'
          exact absurd (hok.symm.trans hfault') (by simp)
      | next hi' hone' _ hrest' =>
          obtain rfl := Option.some.inj (hi.symm.trans hi')
          obtain rfl := hone.unique hone'
          rw [ih hrest']

theorem pathsFrom_eq_drop (t : Tree) (i : Nat) : pathsFrom i t = t.paths.drop i := List.map_drop

theorem pathsFrom_eq_nil {i : Nat} (h : pathsFrom i t = []) : t.nodes[i]? = none := by
  have hlen : t.nodes.length ≤ i := List.drop_eq_nil_iff.1 (List.map_eq_nil_iff.1 h)
  exact List.getElem?_eq_none hlen

theorem pathsFrom_eq_cons {i : Nat} {p : Path} {rest : List Path}
    (h : pathsFrom i t = p :: rest) :
    ∃ n, t.nodes[i]? = some n ∧ n.path = p ∧ pathsFrom (i + 1) t = rest := by
  obtain ⟨n, nodes, hdrop, rfl, rfl⟩ := List.map_eq_cons_iff.1 h
  refine ⟨n, ?_, rfl, ?_⟩
  · have hget : (t.nodes.drop i)[0]? = some n := by rw [hdrop]; rfl
    rwa [List.getElem?_drop] at hget
  · rw [pathsFrom, ← List.tail_drop, hdrop, List.tail_cons]

/-- Growth adds paths behind those that are there, and these have no documents. -/
theorem paths_of_grows (hgrows : t.GrowsTo u) (hu : u.Proper) :
    ∃ added, u.paths = t.paths ++ added ∧ ∀ p ∈ added, (u.nodeAt p).doc = [] := by
  have hprefix : t.paths <+: u.paths := by
    refine List.prefix_iff_getElem?.2 fun i hi => ?_
    have hi' : i < t.nodes.length := by simpa [Tree.paths] using hi
    obtain ⟨m, hm, hkeeps⟩ := hgrows.kept i t.nodes[i] (List.getElem?_eq_getElem hi')
    simp [Tree.paths, hm, hkeeps.path]
  obtain ⟨added, hadded⟩ := hprefix
  refine ⟨added, hadded.symm, ?_⟩
  intro p hp
  have hnodup := hu.nodup
  rw [← hadded] at hnodup
  have hnew : p ∉ t.paths := fun hold => (List.nodup_append.1 hnodup).2.2 p hold p hp rfl
  exact (hgrows.added_at (hadded ▸ List.mem_append_right _ hp) hnew).2.1

/-- Over nodes without documents the loop adds nothing and visits each of them. -/
theorem sweep_docs_nil (ps : List Path) {i : Nat} (h : t.Memo) (hps : pathsFrom i t = ps)
    (hdocs : ∀ p ∈ ps, (t.nodeAt p).doc = []) : Sweep t i (resolveEach t ps) := by
  induction ps generalizing t i with
  | nil => exact .done (pathsFrom_eq_nil hps)
  | cons p rest ih =>
      obtain ⟨n, hn, rfl, hrest⟩ := pathsFrom_eq_cons hps
      obtain ⟨hdoc, hdocs⟩ := List.forall_mem_cons.1 hdocs
      have hmem : n.path ∈ t.paths := Tree.mem_paths.2 ⟨n, List.mem_of_getElem? hn, rfl⟩
      have hone := (resolve_spec h hmem).1
      have hrun := descent_climb t n.path []
      rw [resolveEach]
      cases hok : (resolve t n.path).outcome with
      | error fault =>
          rw [Progress.andThen_of_error hok]
          exact .failed hn hrun hok
      | ok e =>
          rw [Progress.andThen_of_ok hok]
          refine .next hn hrun hok (ih hone.memo ?_ ?_)
          · rw [pathsFrom_eq_drop, paths_resolve_of_top (Tree.extended?_of_doc_nil hdoc),
              ← pathsFrom_eq_drop, hrest]
          · intro q hq
            exact ((hone.grows.sameDocuments hone.memo.proper).doc q).trans (hdocs q hq)

/-- The loop first visits the nodes that are there, and then those that were added. -/
theorem sweep_resolveEach (ps : List Path) {added : List Path} {i count : Nat} (h : t.Memo)
    (hps : pathsFrom i t = ps ++ added) (hcount : i + ps.length = count)
    (hdocs : ∀ p ∈ added, (t.nodeAt p).doc = []) :
    Sweep t i ((resolveEach t ps).andThen fun u _ => resolveEach u (pathsFrom count u)) := by
  induction ps generalizing t i added with
  | nil =>
      obtain rfl : i = count := hcount
      have hrun := sweep_docs_nil (pathsFrom i t) h rfl (hps ▸ hdocs)
      rw [resolveEach, Progress.andThen_of_ok rfl]
      exact hrun
  | cons p rest ih =>
      rw [List.cons_append] at hps
      obtain ⟨n, hn, rfl, hrest⟩ := pathsFrom_eq_cons hps
      have hmem : n.path ∈ t.paths := Tree.mem_paths.2 ⟨n, List.mem_of_getElem? hn, rfl⟩
      have hone := (resolve_spec h hmem).1
      have hrun := descent_climb t n.path []
      rw [resolveEach, Progress.andThen_assoc]
      cases hok : (resolve t n.path).outcome with
      | error fault =>
          rw [Progress.andThen_of_error hok]
          exact .failed hn hrun hok
      | ok e =>
          rw [Progress.andThen_of_ok hok]
          -- What this node adds comes behind all that is still to be visited.
          obtain ⟨new, hnew, hnewdocs⟩ := paths_of_grows hone.grows hone.memo.proper
          have hlen : i + 1 ≤ t.paths.length := by
            have := (List.getElem?_eq_some_iff.1 hn).1
            simp only [Tree.paths, List.length_map]
            omega
          have hvisit : pathsFrom (i + 1) (resolve t n.path).tree = rest ++ (added ++ new) := by
            rw [pathsFrom_eq_drop, hnew, List.drop_append_of_le_length hlen, ← pathsFrom_eq_drop,
              hrest, List.append_assoc]
          refine .next hn hrun hok (ih hone.memo hvisit ?_ ?_)
          · rw [← hcount, List.length_cons]
            omega
          · intro q hq
            rcases List.mem_append.1 hq with hq | hq
            · exact ((hone.grows.sameDocuments hone.memo.proper).doc q).trans (hdocs q hq)
            · exact hnewdocs q hq

/-- The loop has one run, and that ends with the result of resolving all nodes in two rounds. -/
theorem sweep_iff (h : t.Memo) {x : Progress Unit} : Sweep t 0 x ↔ x = resolveAll t := by
  have hrun : Sweep t 0 (resolveAll t) :=
    sweep_resolveEach (pathsFrom 0 t) h (List.append_nil _).symm (by simp [pathsFrom, Tree.size])
      (by simp)
  constructor
  · exact fun hx => hx.unique hrun
  · rintro rfl
    exact hrun

end ApiTypings.Exclusion
