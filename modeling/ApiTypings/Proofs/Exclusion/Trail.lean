import ApiTypings.Proofs.Exclusion.Failure
import ApiTypings.Proofs.Exclusion.Recursion
import ApiTypings.Proofs.Exclusion.Request
import Mathlib.Data.List.Chain

/-!
The names that a circle is reported with.

A climb remembers the record names of the nodes on its way, and if it ends with a circle, it reports
them with one more name behind. `Tree.Trail` is the way itself: nodes, each of which extends the
next. A climb that comes to a name again reports that name, which is the one of the node that it
came to. A climb that comes to a node which extends itself ends before it gets there again, and
reports the text that the node extends in place of the name of its record. The text leads to the
node, but may spell it differently.
-/

namespace ApiTypings

open Exclusion

namespace Tree

variable {t u : Tree} {ps : List Path} {p q : Path} {text : String} {names : List String}

/-- The name of the record of the node at a path. -/
def nameAt (t : Tree) (p : Path) : String := t.recordName (t.nodeAt p)

/-- Nodes, each of which extends the next, and the one that the last of them extends. -/
structure Trail (t : Tree) (ps : List Path) (q : Path) : Prop where
  nodes : ∀ p ∈ ps ++ [q], p ∈ t.paths
  linked : (ps ++ [q]).IsChain t.Extends

/-- A last name is that of the node at the end of a trail, and the trail had it before. -/
def Returns (t : Tree) (ps : List Path) (q : Path) (last : String) : Prop :=
  last = t.nameAt q ∧ last ∈ ps.map t.nameAt

/-- A trail ends at a node that extends itself, and a last name is the text that it extends, but not
the name of its record. -/
def Respells (t : Tree) (ps : List Path) (q : Path) (last : String) : Prop :=
  ps.getLast? = some q ∧ TypeRecord.extendsOf? (t.nodeAt q).doc = some last ∧ last ≠ t.nameAt q

/-- Names that a circle is reported with: those of the nodes on a trail, and a last name. -/
def Reports (t : Tree) (names : List String) : Prop :=
  ∃ ps q last, t.Trail ps q ∧ names = ps.map t.nameAt ++ [last] ∧
    (t.Returns ps q last ∨ t.Respells ps q last)

theorem nameAt_of_whole {record : TypeRecord} (h : t.wholeRecord p = .ok record) :
    t.nameAt p = record.name := by
  rw [nameAt, recordName, path_nodeAt, (extends?_of_ofFields h).2]

theorem SameDocuments.nameAt (h : SameDocuments t u) : u.nameAt = t.nameAt := by
  funext p
  rw [Tree.nameAt, Tree.nameAt, recordName, recordName, path_nodeAt, path_nodeAt, h.doc, h.fullName]

theorem Trail.grows (h : t.Trail ps q) (hgrows : t.GrowsTo u) (hu : u.Proper) : u.Trail ps q where
  nodes x hx := hgrows.mem_paths (h.nodes x hx)
  linked := (hgrows.sameDocuments hu).extends_eq ▸ h.linked

theorem trail_nil (hp : p ∈ t.paths) : t.Trail [] p :=
  ⟨by simpa using hp, by simp⟩

/-- A trail goes on with what its last node extends. -/
theorem Trail.further (h : t.Trail ps p) (hpq : t.Extends p q) (hq : q ∈ t.paths) :
    t.Trail (ps ++ [p]) q where
  nodes x hx := by
    rcases List.mem_append.1 hx with hx | hx
    · exact h.nodes x hx
    · exact List.mem_singleton.1 hx ▸ hq
  linked := by
    refine List.isChain_append.2 ⟨h.linked, by simp, ?_⟩
    simpa using hpq

end Tree

namespace Exclusion

variable {t u : Tree} {p : Path} {fault : Fault} {chain : List String}

/-! ### Single resolutions -/

theorem wholeRecord_fault (h : t.wholeRecord p = .error fault) : fault = .notAnObject := by
  rw [Tree.wholeRecord, TypeRecord.ofFields] at h
  cases hown : OwnExclusions.ofJson ((t.nodeAt p).doc.get "excludes") with
  | ok own => simp [hown, bind, Except.bind, pure, Except.pure] at h
  | error f =>
      obtain rfl : f = fault := by simpa [hown, bind, Except.bind] using h
      unfold OwnExclusions.ofJson at hown
      split at hown
      · simp at hown
      · split at hown
        · simp at hown
        · exact (Except.error.inj hown).symm

/-- A resolution that is on its way along a trail, with the names on it, reports what comes of that
trail if it ends with a circle. -/
theorem Descent.cycle {met : List String} {x : Progress Exclusions} {ps : List Path}
    (hrun : Descent t p met x) (ht : t.Memo) (htrail : t.Trail ps p)
    (hmet : met = ps.map t.nameAt) (h : x.outcome = .error (.cycle chain)) :
    x.tree.Reports chain := by
  induction hrun generalizing ps with
  | settled => simp at h
  | unreadable _ hwhole =>
      rw [Except.error.inj h] at hwhole
      exact absurd (wholeRecord_fault hwhole) (by simp)
  | @repeated t p met record _ hwhole hname =>
      obtain rfl := Fault.cycle.inj (Except.error.inj h)
      have hrecord := Tree.nameAt_of_whole hwhole
      exact ⟨ps, p, record.name, htrail, by rw [hmet], .inl ⟨hrecord.symm, hmet ▸ hname⟩⟩
  | top => exact absurd (settleOne_fault h).1 (by simp)
  | @itself t p met record target _ hwhole _ htarget hself =>
      obtain rfl := Fault.cycle.inj (Except.error.inj h)
      have hextends : t.Extends p p := by
        have habove := extends_of_record hwhole htarget
        rwa [hself] at habove
      have hgrows := Tree.GrowsTo.ensure ht.proper hextends
      have hproper := ht.proper.ensure p true
      have hsame := hgrows.sameDocuments hproper
      have hmem := Tree.path_mem_of_extends hextends
      have hcircle := (htrail.further hextends hmem).grows hgrows hproper
      rw [hself]
      refine ⟨ps ++ [p], p, target, hcircle, ?_, ?_⟩
      · rw [hmet, ← Tree.nameAt_of_whole hwhole, hsame.nameAt]
        simp
      · by_cases htext : target = t.nameAt p
        · exact .inl ⟨by rw [hsame.nameAt, htext], by simp [hsame.nameAt, htext]⟩
        · refine .inr ⟨List.getLast?_concat, ?_, by rwa [hsame.nameAt]⟩
          rw [hsame.doc, ← (extends?_of_ofFields hwhole).1, htarget]
  | @further t p met record target up _ hwhole _ htarget _ _ ih =>
      have hextends := extends_of_record hwhole htarget
      have hmemo := memo_ensure ht hextends
      have hgrows := Tree.GrowsTo.ensure ht.proper hextends
      have hsame := hgrows.sameDocuments hmemo.proper
      have hon := (htrail.grows hgrows hmemo.proper).further (hsame.extends_iff.2 hextends)
        ht.proper.mem_paths_ensure_self
      have hnames : met ++ [record.name] = (ps ++ [p]).map
          (t.ensure (Path.ofName t.rootName target) true).nameAt := by
        rw [hmet, ← Tree.nameAt_of_whole hwhole, hsame.nameAt, List.map_append]
        rfl
      rw [Progress.andThen_after] at h ⊢
      -- Only the way up can end with a circle; on the way down nothing is climbed.
      cases hup : up.outcome with
      | ok inherited =>
          rw [Progress.andThen_of_ok hup] at h
          exact absurd (settleOne_fault h).1 (by simp)
      | error f =>
          rw [Progress.andThen_of_error hup] at h ⊢
          obtain rfl := Except.error.inj h
          exact ih hmemo hon hnames hup

/-! ### Requests -/

/-- What comes of a request, but for what a node passes on. -/
def answer (t : Tree) : Request → Except Fault Unit
  | .node position => (resolveAt t position).outcome.map fun _ => ()
  | .all => (resolveAll t).outcome

theorem resolve_cycle (ht : t.Memo) (hp : p ∈ t.paths)
    (h : (resolve t p).outcome = .error (.cycle chain)) :
    (resolve t p).tree.Reports chain :=
  (descent_climb t p []).cycle ht (Tree.trail_nil hp) rfl h

/-- Resolving nodes one after another ends where the first of them fails. -/
theorem resolveEach_fault {ps : List Path} (ht : t.Memo) (hps : ∀ p ∈ ps, p ∈ t.paths)
    (h : (resolveEach t ps).outcome = .error fault) :
    ∃ u p, u.Memo ∧ p ∈ u.paths ∧ (resolve u p).outcome = .error fault ∧
      (resolve u p).tree = (resolveEach t ps).tree := by
  induction ps generalizing t with
  | nil => simp [resolveEach] at h
  | cons p rest ih =>
      obtain ⟨hp, hrest⟩ := List.forall_mem_cons.1 hps
      have hstep := (resolve_spec ht hp).1
      rw [resolveEach] at h ⊢
      cases hok : (resolve t p).outcome with
      | error f =>
          rw [Progress.andThen_of_error hok] at h ⊢
          obtain rfl := Except.error.inj h
          exact ⟨t, p, ht, hp, hok, rfl⟩
      | ok e =>
          rw [Progress.andThen_of_ok hok] at h ⊢
          exact ih hstep.memo (fun q hq => hstep.grows.mem_paths (hrest q hq)) h

theorem resolveAll_fault_at (ht : t.Memo) (h : (resolveAll t).outcome = .error fault) :
    ∃ u p, u.Memo ∧ p ∈ u.paths ∧ (resolve u p).outcome = .error fault ∧
      (resolve u p).tree = (resolveAll t).tree := by
  rw [resolveAll] at h ⊢
  cases hok : (resolveEach t (pathsFrom 0 t)).outcome with
  | error f =>
      rw [Progress.andThen_of_error hok] at h ⊢
      obtain rfl := Except.error.inj h
      exact resolveEach_fault ht (fun _ hp => mem_paths_of_mem_pathsFrom hp) hok
  | ok _ =>
      rw [Progress.andThen_of_ok hok] at h ⊢
      exact resolveEach_fault (sound_round ht 0).memo
        (fun _ hp => mem_paths_of_mem_pathsFrom hp) h

theorem seenFromEnd_eq_cycle (h : seenFromEnd fault = .cycle chain) :
    fault = .cycle chain ∨ ∃ name last, fault = .cycle [name, last] ∧ chain = [name, name] := by
  unfold seenFromEnd at h
  split at h
  next name last => exact .inr ⟨name, last, rfl, (Fault.cycle.inj h).symm⟩
  · exact .inl h

/-- A node that is named by a position from the end is met again before it is known to extend
itself, so that its name is reported twice. -/
theorem reports_twice {name last : String} (h : t.Reports [name, last]) :
    t.Reports [name, name] := by
  obtain ⟨ps, q, other, htrail, hnames, hlast⟩ := h
  obtain ⟨x, rfl⟩ : ∃ x, ps = [x] := by
    have hlength := congrArg List.length hnames
    exact List.length_eq_one_iff.1 (by simpa using hlength.symm)
  obtain ⟨rfl, -⟩ := List.cons_eq_cons.1 hnames
  refine ⟨[x], q, t.nameAt x, htrail, rfl, .inl ⟨?_, List.mem_singleton.2 rfl⟩⟩
  rcases hlast with ⟨rfl, hmem⟩ | ⟨hself, -⟩
  · exact (List.mem_singleton.1 hmem).symm
  · obtain rfl : x = q := by simpa using hself
    rfl

theorem atPosition_fault {position : Int} (h : t.atPosition position = .error fault) :
    fault = .noSuchPosition position := by
  rw [Tree.atPosition] at h
  generalize (if position < 0 then position + (t.size : Int) else position) = index at h
  split at h
  · exact (Except.error.inj h).symm
  · cases hm : t.nodes[index.toNat]? with
    | none => simpa [hm, eq_comm] using h
    | some m => simp [hm] at h

theorem resolveAt_cycle (ht : t.Memo) {position : Int}
    (h : (resolveAt t position).outcome = .error (.cycle chain)) :
    (resolveAt t position).tree.Reports chain := by
  cases hn : t.atPosition position with
  | error fault =>
      simp only [resolveAt, hn] at h
      obtain rfl := Except.error.inj h
      exact absurd (atPosition_fault hn) (by simp)
  | ok n =>
      have hp : n.path ∈ t.paths := Tree.mem_paths.2 ⟨n, atPosition_mem hn, rfl⟩
      rw [tree_resolveAt hn]
      simp only [resolveAt, hn] at h
      split at h
      · cases hok : (resolve t n.path).outcome with
        | ok e => simp [hok, Except.mapError] at h
        | error fault =>
            have hseen : seenFromEnd fault = .cycle chain := by
              simpa [hok, Except.mapError] using h
            rcases seenFromEnd_eq_cycle hseen with rfl | ⟨name, last, rfl, rfl⟩
            · exact resolve_cycle ht hp hok
            · exact reports_twice (resolve_cycle ht hp hok)
      · exact resolve_cycle ht hp h

theorem perform_cycle (ht : t.Memo) {request : Request}
    (h : answer t request = .error (.cycle chain)) :
    (perform t request).Reports chain := by
  cases request with
  | all =>
      obtain ⟨u, p, hu, hp, hfault, htree⟩ := resolveAll_fault_at ht h
      rw [perform, ← htree]
      exact resolve_cycle hu hp hfault
  | node position =>
      refine resolveAt_cycle ht ?_
      cases hone : (resolveAt t position).outcome with
      | ok e => simp [answer, hone, Except.map] at h
      | error fault => simpa [answer, hone, Except.map] using h

/-- Whatever was asked of a tree before, a request that ends with a circle reports the names of
nodes, at least of one, each of which extends the next, and a last name. That name is the one of the
node that is extended last, and has occurred before, unless that node extends itself by a text that
is not the name of its record; then the text is reported instead. -/
theorem cycle_reports_trail {apis : Fields} {rootName : String}
    (hbuild : (Tree.build (.obj apis) rootName).outcome = .ok t) (requests : List Request)
    {request : Request} (h : answer (performAll t requests) request = .error (.cycle chain)) :
    let u := perform (performAll t requests) request
    ∃ ps q last, ps ≠ [] ∧ u.Trail ps q ∧ chain = ps.map u.nameAt ++ [last] ∧
      (u.Returns ps q last ↔ ¬u.Respells ps q last) := by
  intro u
  have hmemo := (performAll_spec (Tree.memo_build hbuild) requests).1
  obtain ⟨ps, q, last, htrail, hnames, hlast⟩ := perform_cycle hmemo h
  refine ⟨ps, q, last, ?_, htrail, hnames, ?_⟩
  · rintro rfl
    rcases hlast with ⟨-, hmem⟩ | ⟨hself, -⟩
    · exact absurd hmem List.not_mem_nil
    · simp at hself
  · exact ⟨fun hreturns hrespells => hrespells.2.2 hreturns.1, hlast.resolve_right⟩

/-- A type that extends one of two that extend each other, one of them under a name with the root's
name in front, and a type that extends nothing. -/
def approachRecords : Fields :=
  [("D", .obj [("name", .str "D")]),
    ("A", .obj [("name", .str "A"), ("extends", .str "Global.B")]),
    ("B", .obj [("name", .str "B"), ("extends", .str "C")]),
    ("C", .obj [("name", .str "Global.C"), ("extends", .str "B")])]

/-- The tree of `approachRecords`. -/
def approachTree : Tree :=
  ⟨"Global", "",
    [Node.blank [] false,
      ⟨["D"], [("name", .str "D")], false, none⟩,
      ⟨["A"], [("name", .str "A"), ("extends", .str "Global.B")], false, none⟩,
      ⟨["B"], [("name", .str "B"), ("extends", .str "C")], false, none⟩,
      ⟨["C"], [("name", .str "Global.C"), ("extends", .str "B")], false, none⟩], []⟩

theorem cycle_reports_trail_approachRecords :
    (Tree.build (.obj approachRecords) "Global").outcome = .ok approachTree ∧
      answer (performAll approachTree [.node 1]) (.node 2) =
        .error (.cycle ["A", "B", "Global.C", "B"]) ∧
      let u := perform (performAll approachTree [.node 1]) (.node 2)
      ∃ ps q last, ps ≠ [] ∧ u.Trail ps q ∧
        ["A", "B", "Global.C", "B"] = ps.map u.nameAt ++ [last] ∧
        (u.Returns ps q last ↔ ¬u.Respells ps q last) := by
  have hbuild : (Tree.build (.obj approachRecords) "Global").outcome = .ok approachTree := by rfl
  have hanswer : answer (performAll approachTree [.node 1]) (.node 2) =
      .error (.cycle ["A", "B", "Global.C", "B"]) := by cbv
  exact ⟨hbuild, hanswer, cycle_reports_trail hbuild [.node 1] hanswer⟩

/-- A type that extends itself under its name with the root's name in front. -/
def respelledRecords : Fields :=
  [("A", .obj [("name", .str "A"), ("extends", .str "Global.A")])]

/-- The tree of `respelledRecords`. -/
def respelledTree : Tree :=
  ⟨"Global", "",
    [Node.blank [] false,
      ⟨["A"], [("name", .str "A"), ("extends", .str "Global.A")], false, none⟩], []⟩

/-- The name that is reported last has not occurred before and is not that of any record. -/
theorem last_name_new_respelledRecords :
    (Tree.build (.obj respelledRecords) "Global").outcome = .ok respelledTree ∧
      answer respelledTree .all = .error (.cycle ["A", "Global.A"]) ∧ "Global.A" ∉ ["A"] ∧
      ∀ p ∈ (perform respelledTree .all).paths,
        (perform respelledTree .all).nameAt p ≠ "Global.A" := by
  refine ⟨by rfl, by cbv, by decide, ?_⟩
  have hperform := show perform respelledTree .all = _ by cbv
  rw [hperform]
  decide +kernel

end Exclusion

end ApiTypings
