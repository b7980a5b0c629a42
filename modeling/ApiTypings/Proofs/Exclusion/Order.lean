import ApiTypings.Proofs.Exclusion.Effect
import ApiTypings.Proofs.Exclusion.Request

/-!
Requests in any order.

What two sequences of requests find out of a node is the same. Whether a node is settled in the end
may depend on the order, since a climb that a settled node cuts short does not meet the names above
that node. Where names tell nodes apart this makes no difference, and what is settled depends only
on which calls are made.
-/

namespace ApiTypings

open Exclusion

namespace Tree

variable {t u : Tree} {p : Path}

/-- A path that a tree has a node at or may grow to have one at: it is on the way to a path that
some node extends. -/
def Admits (t : Tree) (p : Path) : Prop := p ∈ t.paths ∨ ∃ x q, t.Extends x q ∧ p ∈ q.steps

theorem GrowsTo.admits (h : t.GrowsTo u) (hp : p ∈ u.paths) : t.Admits p := by
  by_cases hold : p ∈ t.paths
  · exact .inl hold
  · obtain ⟨-, -, hstep⟩ := h.added_at hp hold
    exact .inr hstep

theorem GrowsTo.admits_iff (h : t.GrowsTo u) (hu : u.Proper) : u.Admits p ↔ t.Admits p := by
  have hextends := (h.sameDocuments hu).extends_eq
  constructor
  · rintro (hp | ⟨x, q, hxq, hstep⟩)
    · exact h.admits hp
    · exact .inr ⟨x, q, hextends ▸ hxq, hstep⟩
  · rintro (hp | ⟨x, q, hxq, hstep⟩)
    · exact .inl (h.mem_paths hp)
    · exact .inr ⟨x, q, hextends ▸ hxq, hstep⟩

/-- Once all nodes are settled, the tree has grown as far as it can: what a node extends is settled
as well, and so it is there. -/
theorem Admits.mem_paths (h : t.Memo) (hall : ∀ q ∈ t.paths, t.IsReady q) (hp : t.Admits p) :
    p ∈ t.paths := by
  rcases hp with hp | ⟨x, q, hxq, hstep⟩
  · exact hp
  · obtain ⟨r, hr⟩ := (hall x (path_mem_of_extends hxq)).reaches h (.single hxq)
    exact h.proper.closed q (path_mem_of_resolution hr) p hstep

end Tree

namespace Exclusion

variable {t u v : Tree} {p x : Path}

/-! ### Agreement -/

/-- Two trees that do not contradict each other: a node settled in both has one resolution, and if
all nodes of both are settled, they have the same nodes. -/
structure Agree (u v : Tree) : Prop where
  settled : ∀ n ∈ u.nodes, ∀ m ∈ v.nodes, n.path = m.path → ∀ r s,
    n.resolution = some r → m.resolution = some s → r = s
  complete : isSettled u = true → isSettled v = true → ∀ p r,
    (∃ n ∈ u.nodes, n.path = p ∧ n.resolution = some r) ↔
      ∃ m ∈ v.nodes, m.path = p ∧ m.resolution = some r

theorem isReady_of_isSettled (h : isSettled u = true) (hp : p ∈ u.paths) : u.IsReady p :=
  Option.isSome_iff_exists.1 (List.all_eq_true.1 h _ (Tree.nodeAt_mem_nodes hp))

/-- A node has one resolution in all trees that one tree grows to. -/
theorem resolution_unique (hu : t.GrowsTo u) (hum : u.Memo) (hv : t.GrowsTo v) (hvm : v.Memo)
    {r s : Resolution} (hr : (u.nodeAt p).resolution = some r)
    (hs : (v.nodeAt p).resolution = some s) : r = s := by
  have hsame := (hu.sameDocuments hum.proper).symm.trans (hv.sameDocuments hvm.proper)
  exact ((hum.settled p r hr).congr hsame).unique (hvm.settled p s hs)

/-- What is settled in one tree is in another one if all its nodes are settled. -/
theorem resolution_transfer (hu : t.GrowsTo u) (hum : u.Memo) (hv : t.GrowsTo v)
    (hvm : v.Memo) (hall : isSettled v = true) {r : Resolution}
    (h : ∃ n ∈ u.nodes, n.path = p ∧ n.resolution = some r) :
    ∃ m ∈ v.nodes, m.path = p ∧ m.resolution = some r := by
  obtain ⟨n, hn, rfl, hr⟩ := h
  rw [← Tree.nodeAt_path hum.proper.nodup hn] at hr
  have hready (q : Path) (hq : q ∈ v.paths) := isReady_of_isSettled hall hq
  have hadmits := (hv.admits_iff hvm.proper).2 (hu.admits (Tree.path_mem_of_resolution hr))
  have hp := hadmits.mem_paths hvm hready
  obtain ⟨s, hs⟩ := hready n.path hp
  obtain rfl := resolution_unique hu hum hv hvm hr hs
  exact ⟨v.nodeAt n.path, Tree.nodeAt_mem_nodes hp, Tree.path_nodeAt v n.path, hs⟩

theorem agree_of_memo (hu : t.GrowsTo u) (hum : u.Memo) (hv : t.GrowsTo v) (hvm : v.Memo) :
    Agree u v := by
  refine ⟨?_, ?_⟩
  · intro n hn m hm hpath r s hr hs
    rw [← Tree.nodeAt_path hum.proper.nodup hn] at hr
    rw [← Tree.nodeAt_path hvm.proper.nodup hm, ← hpath] at hs
    exact resolution_unique hu hum hv hvm hr hs
  · intro hallu hallv p r
    exact ⟨resolution_transfer hu hum hv hvm hallv, resolution_transfer hv hvm hu hum hallu⟩

/-! ### Calls -/

/-- What a request asks for: the node at a path, wherever the node stands, or all nodes. -/
inductive Call where
  | node (path : Path)
  | all
  deriving DecidableEq, Repr

/-- The call that a request makes; at a position at which nothing stands it makes none. -/
def call? (t : Tree) : Request → Option Call
  | .node position =>
    match t.atPosition position with
    | .ok n => some (.node n.path)
    | .error _ => none
  | .all => some .all

/-- The calls that one request after another makes. -/
def calls : Tree → List Request → List Call
  | _, [] => []
  | t, request :: rest => (call? t request).toList ++ calls (perform t request) rest

/-- What a round over nodes settles, which ends at the first node that cannot be settled. -/
def Visits (t : Tree) : List Path → Path → Prop
  | [], _ => False
  | p :: rest, x => Yields t p x ∨ t.Settleable p ∧ Visits t rest x

/-- What a call settles, whatever was called before. -/
def Settling (t : Tree) : Call → Path → Prop
  | .node p, x => Yields t p x
  | .all, x => Visits t t.paths x ∨ (∀ p ∈ t.paths, t.Settleable p) ∧ t.Admits x

theorem Visits.reached {ps : List Path} (h : Visits t ps x) :
    ∃ p ∈ ps, Relation.ReflTransGen t.Extends p x := by
  induction ps with
  | nil => exact h.elim
  | cons p rest ih =>
      rcases h with ⟨-, hpx, -⟩ | ⟨-, hrest⟩
      · exact ⟨p, List.mem_cons_self, hpx⟩
      · obtain ⟨q, hq, hqx⟩ := ih hrest
        exact ⟨q, List.mem_cons_of_mem _ hq, hqx⟩

theorem resolveEach_append (t : Tree) (ps qs : List Path) :
    resolveEach t (ps ++ qs) = (resolveEach t ps).andThen fun u _ => resolveEach u qs := by
  induction ps generalizing t with
  | nil =>
      rw [List.nil_append, resolveEach, Progress.andThen_of_ok rfl]
      rfl
  | cons p rest ih =>
      rw [List.cons_append, resolveEach, resolveEach, Progress.andThen_assoc]
      exact congrArg _ (funext fun u => funext fun _ => ih u)

section Calls

variable (hnames : t.NamesNodes) (hu : u.Memo) (hgrows : t.GrowsTo u)

include hnames hu hgrows

theorem isReady_resolveEach {ps : List Path} (hps : ∀ p ∈ ps, p ∈ u.paths) :
    (resolveEach u ps).tree.IsReady x ↔ u.IsReady x ∨ Visits t ps x := by
  induction ps generalizing u with
  | nil => simp [resolveEach, Visits]
  | cons p rest ih =>
      obtain ⟨hp, hrest⟩ := List.forall_mem_cons.1 hps
      have hready := isReady_resolve (x := x) hnames hu hgrows hp
      have hone := (resolve_spec hu hp).1
      have hok := resolve_ok_iff hnames hu hgrows hp
      rw [resolveEach, Visits]
      cases hout : (resolve u p).outcome with
      | error fault =>
          have hnot : ¬t.Settleable p := by simpa [hout] using hok
          rw [Progress.andThen_of_error hout, hready]
          simp [hnot]
      | ok e =>
          have hs : t.Settleable p := hok.1 ⟨e, hout⟩
          rw [Progress.andThen_of_ok hout, ih hone.memo (hgrows.trans hu.proper hone.grows)
            fun q hq => hone.grows.mem_paths (hrest q hq), hready]
          simp [hs, or_assoc]

theorem resolveEach_ok_iff {ps : List Path} (hps : ∀ p ∈ ps, p ∈ u.paths) :
    (resolveEach u ps).outcome = .ok () ↔ ∀ p ∈ ps, t.Settleable p := by
  induction ps generalizing u with
  | nil => simp [resolveEach]
  | cons p rest ih =>
      obtain ⟨hp, hrest⟩ := List.forall_mem_cons.1 hps
      have hone := (resolve_spec hu hp).1
      have hok := resolve_ok_iff hnames hu hgrows hp
      rw [resolveEach, List.forall_mem_cons]
      cases hout : (resolve u p).outcome with
      | error fault =>
          have hnot : ¬t.Settleable p := by simpa [hout] using hok
          rw [Progress.andThen_of_error hout]
          simp [hnot]
      | ok e =>
          have hs : t.Settleable p := hok.1 ⟨e, hout⟩
          rw [Progress.andThen_of_ok hout]
          have hih := ih hone.memo (hgrows.trans hu.proper hone.grows)
            fun q hq => hone.grows.mem_paths (hrest q hq)
          simpa [hs] using hih

/-- If all nodes of a tree can be settled, so can those that were added since, and resolving all
nodes of the grown tree succeeds. -/
theorem resolveAll_of_settleable (hall : ∀ p ∈ t.paths, t.Settleable p) :
    (resolveAll u).outcome = .ok () := by
  have hsame := hgrows.sameDocuments hu.proper
  have hadmit (v : Tree) (hv : t.GrowsTo v) (hvm : v.Memo) (p : Path) (hp : p ∈ v.paths) :
      t.Settleable p := by
    by_cases hold : p ∈ t.paths
    · exact hall p hold
    · have hdoc := (hv.added_at hp hold).2.1
      exact (hv.sameDocuments hvm.proper).settleable_iff.1 (Tree.settleable_of_doc_nil hdoc)
  have hfirst := sound_round hu 0
  have hgrows' := hgrows.trans hu.proper hfirst.grows
  have hok : (resolveEach u (pathsFrom 0 u)).outcome = .ok () :=
    (resolveEach_ok_iff hnames hu hgrows fun _ hp => mem_paths_of_mem_pathsFrom hp).2
      fun p hp => hadmit u hgrows hu p (mem_paths_of_mem_pathsFrom hp)
  rw [resolveAll, Progress.andThen_of_ok hok]
  exact (resolveEach_ok_iff hnames hfirst.memo hgrows'
    fun _ hp => mem_paths_of_mem_pathsFrom hp).2
      fun p hp => hadmit _ hgrows' hfirst.memo p (mem_paths_of_mem_pathsFrom hp)

theorem isReady_resolveAll :
    (resolveAll u).tree.IsReady x ↔ u.IsReady x ∨ Settling t .all x := by
  have hsound := sound_resolveAll hu
  by_cases hall : ∀ p ∈ t.paths, t.Settleable p
  · have hok := resolveAll_of_settleable hnames hu hgrows hall
    have hready (p : Path) (hp : p ∈ (resolveAll u).tree.paths) :
        (resolveAll u).tree.IsReady p := resolution_of_resolveAll hu hok hp
    have hgrows' := hgrows.trans hu.proper hsound.grows
    constructor
    · rintro ⟨r, hr⟩
      exact .inr (.inr ⟨hall, hgrows'.admits (Tree.path_mem_of_resolution hr)⟩)
    · rintro (hx | hx | ⟨-, hx⟩)
      · exact hx.grows hsound.grows hsound.memo.proper
      · obtain ⟨p, hp, hpx⟩ := hx.reached
        have hsame := hgrows'.sameDocuments hsound.memo.proper
        exact (hready p (hgrows'.mem_paths hp)).reaches hsound.memo (hsame.extends_eq ▸ hpx)
      · have hadmits := (hgrows'.admits_iff hsound.memo.proper).2 hx
        exact hready x (hadmits.mem_paths hsound.memo hready)
  · -- The round ends before it comes to a node that was added.
    obtain ⟨added, hadded, -⟩ := paths_of_grows hgrows hu.proper
    have hps (p : Path) (hp : p ∈ t.paths) : p ∈ u.paths := hgrows.mem_paths hp
    have hpaths : pathsFrom 0 u = t.paths ++ added := hadded
    have htree : (resolveAll u).tree = (resolveEach u t.paths).tree := by
      have hfail := mt (resolveEach_ok_iff hnames hu hgrows hps).1 hall
      rw [resolveAll, hpaths, resolveEach_append, Progress.andThen_assoc]
      cases hout : (resolveEach u t.paths).outcome with
      | ok _ => exact absurd hout hfail
      | error fault => rw [Progress.andThen_of_error hout]
    rw [htree, isReady_resolveEach hnames hu hgrows hps, Settling]
    simp [hall]

theorem isReady_perform (request : Request) :
    (perform u request).IsReady x ↔ u.IsReady x ∨ ∃ c ∈ call? u request, Settling t c x := by
  cases request with
  | all => simpa [perform, call?] using isReady_resolveAll hnames hu hgrows
  | node position =>
      rw [perform, call?]
      cases hn : u.atPosition position with
      | error fault => simp [resolveAt, hn]
      | ok n =>
          have hp : n.path ∈ u.paths := Tree.mem_paths.2 ⟨n, atPosition_mem hn, rfl⟩
          simpa [tree_resolveAt hn, Settling] using isReady_resolve hnames hu hgrows hp

/-- What is settled after some requests depends on the calls that they make. -/
theorem isReady_performAll (requests : List Request) :
    (performAll u requests).IsReady x ↔
      u.IsReady x ∨ ∃ c ∈ calls u requests, Settling t c x := by
  induction requests generalizing u with
  | nil => simp [performAll, calls]
  | cons request rest ih =>
      obtain ⟨hmemo, hgrows'⟩ := perform_spec hu request
      have hrest : performAll u (request :: rest) = performAll (perform u request) rest := rfl
      rw [hrest, ih hmemo (hgrows.trans hu.proper hgrows'),
        isReady_perform hnames hu hgrows request, calls]
      simp only [List.mem_append, Option.mem_toList, Option.mem_def, or_and_right, exists_or,
        or_assoc]

end Calls

/-- After any sequence of requests a built tree is consistent. What two sequences find out of it
agrees; and with proper names, if the two make the same calls in whatever order, what is known of
each node is the same in the end, whether or not some of the requests failed. -/
theorem consistent_performAll {apis : Fields} {rootName : String}
    (h : (Tree.build (.obj apis) rootName).outcome = .ok t) (requests : List Request) :
    Consistent t (performAll t requests) ∧
      ∀ others, Agree (performAll t requests) (performAll t others) ∧
        (Tree.ProperNames rootName apis t →
          (∀ c, c ∈ calls t requests ↔ c ∈ calls t others) →
          ∀ p, ((performAll t requests).nodeAt p).resolution =
            ((performAll t others).nodeAt p).resolution) := by
  have hmemo := Tree.memo_build h
  obtain ⟨hum, hu⟩ := performAll_spec hmemo requests
  refine ⟨consistent_of_memo hu hum, ?_⟩
  intro others
  obtain ⟨hvm, hv⟩ := performAll_spec hmemo others
  refine ⟨agree_of_memo hu hum hv hvm, ?_⟩
  intro hproper hcalls p
  have hnames := Tree.namesNodes_build h hproper
  have hready : (performAll t requests).IsReady p ↔ (performAll t others).IsReady p := by
    rw [isReady_performAll hnames hmemo (.refl t), isReady_performAll hnames hmemo (.refl t)]
    simp only [hcalls]
  cases hr : ((performAll t requests).nodeAt p).resolution with
  | some r =>
      obtain ⟨s, hs⟩ := hready.1 ⟨r, hr⟩
      rw [hs, resolution_unique hu hum hv hvm hr hs]
  | none =>
      cases hs : ((performAll t others).nodeAt p).resolution with
      | none => rfl
      | some s =>
          obtain ⟨r, hr'⟩ := hready.2 ⟨s, hs⟩
          exact absurd (hr.symm.trans hr') (by simp)

/-- Two types that extend each other, and one that extends a type without a record. -/
def mixedRecords : Fields :=
  [("A", .obj [("name", .str "A"), ("extends", .str "C")]),
    ("B", .obj [("name", .str "B"), ("extends", .str "Missing.D"),
      ("excludes", .obj [("methods", .arr [.str "f"])])]),
    ("C", .obj [("name", .str "C"), ("extends", .str "A")])]

/-- The tree of `mixedRecords`. -/
def mixedTree : Tree :=
  ⟨"Global", "",
    [Node.blank [] false,
      ⟨["A"], [("name", .str "A"), ("extends", .str "C")], false, none⟩,
      ⟨["B"], [("name", .str "B"), ("extends", .str "Missing.D"),
        ("excludes", .obj [("methods", .arr [.str "f"])])], false, none⟩,
      ⟨["C"], [("name", .str "C"), ("extends", .str "A")], false, none⟩], []⟩

/-- The requests for the first type and for all nodes fail, in either order. -/
theorem consistent_performAll_mixedRecords :
    (Tree.build (.obj mixedRecords) "Global").outcome = .ok mixedTree ∧
      Tree.ProperNames "Global" mixedRecords mixedTree ∧
      Consistent mixedTree (performAll mixedTree [.node 1, .node 2, .all]) ∧
      Agree (performAll mixedTree [.node 1, .node 2, .all])
        (performAll mixedTree [.all, .node 2, .node 1]) ∧
      ∀ p, ((performAll mixedTree [.node 1, .node 2, .all]).nodeAt p).resolution =
        ((performAll mixedTree [.all, .node 2, .node 1]).nodeAt p).resolution := by
  have hbuild : (Tree.build (.obj mixedRecords) "Global").outcome = .ok mixedTree := by rfl
  have hnames : Tree.ProperNames "Global" mixedRecords mixedTree := by
    refine ⟨?_, by decide +kernel⟩
    simp only [mixedRecords, List.mem_cons, List.not_mem_nil, or_false, Prod.mk.injEq,
      Json.obj.injEq]
    rintro key api (⟨-, rfl⟩ | ⟨-, rfl⟩ | ⟨-, rfl⟩)
    · exact ⟨"A", by decide, by simp, .inr (by decide)⟩
    · exact ⟨"B", by decide, by simp, .inr (by decide)⟩
    · exact ⟨"C", by decide, by simp, .inr (by decide)⟩
  have hcalls : calls mixedTree [.node 1, .node 2, .all] =
      [.node ["A"], .node ["B"], .all] := by cbv
  have hcalls' : calls mixedTree [.all, .node 2, .node 1] =
      [.all, .node ["B"], .node ["A"]] := by cbv
  obtain ⟨hconsistent, hothers⟩ := consistent_performAll hbuild [.node 1, .node 2, .all]
  obtain ⟨hagree, hsame⟩ := hothers [.all, .node 2, .node 1]
  refine ⟨hbuild, hnames, hconsistent, hagree, hsame hnames fun c => ?_⟩
  rw [hcalls, hcalls']
  simp only [List.mem_cons, List.not_mem_nil, or_false]
  tauto

/-- Two types extend a name that starts with the root's name twice. That leads to a child of the
root, below which a node without a record has the name of the first type's record. -/
def doubledRootRecords : Fields :=
  [("Global.X", .obj [("name", .str "Global.X"), ("extends", .str "Global.Global.X")]),
    ("Y", .obj [("name", .str "Y"), ("extends", .str "Global.Global.X")])]

/-- The first type is settled only if the node that it extends is settled before. -/
theorem order_matters_doubledRootRecords :
    ∃ t, (Tree.build (.obj doubledRootRecords) "Global").outcome = .ok t ∧
      calls t [.node 1, .node 2] = [.node ["X"], .node ["Y"]] ∧
      calls t [.node 2, .node 1] = [.node ["Y"], .node ["X"]] ∧
      ((performAll t [.node 1, .node 2]).nodeAt ["X"]).resolution.isSome = false ∧
      ((performAll t [.node 2, .node 1]).nodeAt ["X"]).resolution.isSome = true := by
  refine ⟨_, rfl, ?_, ?_, ?_, ?_⟩
  · cbv
  · cbv
  · cbv
  · cbv

end Exclusion

end ApiTypings
