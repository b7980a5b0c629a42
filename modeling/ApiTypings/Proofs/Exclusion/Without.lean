import ApiTypings.Proofs.Exclusion.Kept
import ApiTypings.Proofs.Exclusion.Order
import ApiTypings.Proofs.Exclusion.Simulation
import ApiTypings.Proofs.Namespace.Without

/-!
Resolving a tree with and without one of its top-level names.

If no type outside of a name extends one inside, then resolving a node outside takes the same course
whether or not the name is left out of the tree. If, in turn, the types inside extend nothing that
is still to be resolved outside, then resolving a node inside leaves all others as they are. The
order in which all nodes are resolved brings both about, when the nodes outside come first: it is
all the same whether the name is left out before all nodes are resolved or afterwards.
-/

namespace ApiTypings

open Exclusion

namespace Tree

variable {t u : Tree} {s : String} {p q : Path}

theorem extended?_ensure (t : Tree) (p q : Path) (b : Bool) :
    (t.ensure p b).extended? q = t.extended? q := by
  rw [extended?, extended?, doc_nodeAt_ensure, rootName_ensure]

theorem extended?_settle (t : Tree) (p q : Path) (r : Resolution) :
    (t.modify p fun n => { n with resolution := some r }).extended? q = t.extended? q := by
  have hdoc : ((t.modify p fun n => { n with resolution := some r }).nodeAt q).doc =
      (t.nodeAt q).doc := by
    rw [nodeAt_modify (f := fun n => { n with resolution := some r }) fun _ => rfl]
    split
    next h => rw [h.1]
    · rfl
  rw [extended?, extended?, hdoc]
  rfl

/-- A tree reaches what is one of its nodes, if what lies on the way to a node is a node. -/
theorem Proper.ensure_of_mem (h : t.Proper) (hp : p ∈ t.paths) : t.ensure p true = t := by
  have hfrom {base : Path} {names : List String}
      (hsteps : ∀ q ∈ Path.stepsFrom base names, q ∈ t.paths) : t.hasFrom base names = true := by
    induction names generalizing base with
    | nil => rfl
    | cons name rest ih =>
        obtain ⟨hhead, hrest⟩ := List.forall_mem_cons.1 hsteps
        exact Bool.and_eq_true_iff.2 ⟨has_iff.2 hhead, ih hrest⟩
  exact ensure_of_reaches (hfrom (h.closed p hp))

/-! ### Outside -/

/-- A tree in which no node outside of a name extends one inside. -/
structure Secluded (t : Tree) (s : String) : Prop where
  fromEnd : t.fromEnd = []
  outside : ∀ p q, p.isUnder s = false → t.Extends p q → q.isUnder s = false

theorem wholeRecord_without (ht : t.fromEnd = []) (hp : p.isUnder s = false) :
    (t.without s).wholeRecord p = t.wholeRecord p := by
  rw [wholeRecord, wholeRecord, nodeAt_without hp, fullName_without ht]

theorem extended?_without (hp : p.isUnder s = false) :
    (t.without s).extended? p = t.extended? p := by
  rw [extended?, extended?, nodeAt_without hp, rootName_without]

/-- Outside of the name, resolving does not notice whether it is left out. -/
theorem simulates_without (s : String) :
    Tree.Simulates (fun t u => u.Secluded s ∧ t = u.without s) fun p => p.isUnder s = false where
  rootName := by
    rintro _ u ⟨-, rfl⟩
    rfl
  resolution := by
    rintro _ u p ⟨-, rfl⟩ hp
    rw [nodeAt_without hp]
  wholeRecord := by
    rintro _ u p ⟨hu, rfl⟩ hp
    exact wholeRecord_without hu.fromEnd hp
  target := by
    rintro _ u p q ⟨hu, rfl⟩ hp hpq
    exact hu.outside p q hp ((extended?_without hp).symm.trans hpq)
  ensure := by
    rintro _ u p ⟨hu, rfl⟩ hp
    refine ⟨⟨(fromEnd_ensure u p true).trans hu.fromEnd, fun x q hx hxq => ?_⟩,
      (without_ensure true hp).symm⟩
    exact hu.outside x q hx ((extended?_ensure u p x true).symm.trans hxq)
  settle := by
    rintro _ u p r ⟨hu, rfl⟩ -
    refine ⟨⟨hu.fromEnd, fun x q hx hxq => ?_⟩, ?_⟩
    · exact hu.outside x q hx ((extended?_settle u p x r).symm.trans hxq)
    · exact (without_modify (f := fun n => { n with resolution := some r }) fun _ => rfl).symm

/-! ### Inside -/

/-- A tree in which, moreover, the nodes inside extend only nodes that are there, and outside only
such as are settled. -/
structure Detached (t : Tree) (s : String) : Prop where
  memo : t.Memo
  outside : ∀ p q, p.isUnder s = false → t.Extends p q → q.isUnder s = false
  inside : ∀ p q, p.isUnder s = true → t.Extends p q →
    q ∈ t.paths ∧ (q.isUnder s = true ∨ ∃ r, (t.nodeAt q).resolution = some r)

theorem Detached.secluded (h : t.Detached s) : t.Secluded s := ⟨h.memo.proper.fromEnd, h.outside⟩

theorem Detached.grows (h : t.Detached s) (hgrows : t.GrowsTo u) (hu : u.Memo) :
    u.Detached s := by
  have hsame := hgrows.sameDocuments hu.proper
  refine ⟨hu, fun p q hp hpq => h.outside p q hp (hsame.extends_iff.1 hpq), ?_⟩
  intro p q hp hpq
  obtain ⟨hq, hor⟩ := h.inside p q hp (hsame.extends_iff.1 hpq)
  refine ⟨hgrows.mem_paths hq, hor.imp_right ?_⟩
  rintro ⟨r, hr⟩
  exact ⟨r, hgrows.resolution hu.proper hr⟩

end Tree

namespace Exclusion

variable {t u : Tree} {s : String} {p : Path}

theorem without_settleOne_inside (hp : p.isUnder s = true) (record : TypeRecord)
    (inherited : Exclusions) :
    (settleOne t p record inherited).tree.without s = t.without s := by
  unfold settleOne
  dsimp only
  split
  · rfl
  · exact Tree.without_modify_inside (fun _ => rfl) hp

/-- Resolving a node inside leaves what is outside as it is. -/
theorem Descent.without_inside {met : List String} {x : Progress Exclusions}
    (hx : Descent t p met x) (ht : t.Detached s) (hp : p.isUnder s = true) :
    x.tree.without s = t.without s := by
  induction hx with
  | settled => rfl
  | unreadable => rfl
  | repeated => rfl
  | top => exact without_settleOne_inside hp _ _
  | itself hr hwhole hmet htarget hself =>
      obtain ⟨hq, -⟩ := ht.inside _ _ hp (extends_of_record hwhole htarget)
      rw [ht.memo.proper.ensure_of_mem hq]
  | @further t p met record target up hr hwhole hmet htarget hother hup ih =>
      obtain ⟨hq, hor⟩ := ht.inside _ _ hp (extends_of_record hwhole htarget)
      rw [ht.memo.proper.ensure_of_mem hq] at hup ih
      have habove : up.tree.without s = t.without s := by
        rcases hor with hunder | ⟨r, hr⟩
        · exact ih ht hunder
        · rw [hup.unique (.settled hr)]
      exact kept_andThen (P := fun u => u.without s = t.without s) habove
        fun u inherited hu => (without_settleOne_inside hp record inherited).trans hu

/-- If the nodes given can all be resolved, then those of them that are outside can be resolved
without the name, and it is all the same whether it is left out before or afterwards. -/
theorem resolveEach_without {ps : List Path} (ht : t.Detached s) (hps : ∀ p ∈ ps, p ∈ t.paths)
    (hok : (resolveEach t ps).outcome = .ok ()) :
    (resolveEach (t.without s) (ps.filter fun p => !p.isUnder s)).tree =
        (resolveEach t ps).tree.without s ∧
      (resolveEach (t.without s) (ps.filter fun p => !p.isUnder s)).outcome = .ok () := by
  induction ps generalizing t with
  | nil => exact ⟨rfl, rfl⟩
  | cons p rest ih =>
      obtain ⟨hp, hrest⟩ := List.forall_mem_cons.1 hps
      have hsound := (resolve_spec ht.memo hp).1
      obtain ⟨e, hone, hok', htree⟩ := Progress.andThen_eq_ok hok
      rw [resolveEach, htree]
      have hnext := ih (ht.grows hsound.grows hsound.memo)
        (fun q hq => hsound.grows.mem_paths (hrest q hq)) hok'
      by_cases hunder : p.isUnder s = true
      · have hsame : (resolve t p).tree.without s = t.without s :=
          (descent_climb t p []).without_inside ht hunder
        rw [List.filter_cons_of_neg (by simp [hunder]), ← hsame]
        exact hnext
      · have houtside := Bool.eq_false_iff.2 hunder
        have hrelated := resolve_related (Tree.simulates_without s) ⟨ht.secluded, rfl⟩ houtside
        rw [List.filter_cons_of_pos (by simp [houtside]), resolveEach,
          Progress.andThen_of_ok (hrelated.outcome.trans hone), hrelated.tree.2]
        exact hnext

end Exclusion

/-! ### All nodes -/

/-- A tree in which a name comes last: the nodes inside were created after all others, none of which
extends anything inside, and they extend nothing that is missing. -/
structure Tree.ComesLast (t : Tree) (s : String) : Prop where
  memo : t.Memo
  last : ∃ inside, t.paths = (t.without s).paths ++ inside ∧ ∀ p ∈ inside, p.isUnder s = true
  outside : ∀ p q, p.isUnder s = false → t.Extends p q → q.isUnder s = false
  inside : ∀ p q, p.isUnder s = true → t.Extends p q → q ∈ t.paths

namespace Exclusion

variable {t u : Tree} {s : String} {p : Path}

/-- Once the nodes outside are resolved, those inside find them settled. -/
theorem detached_of_resolveEach (ht : t.ComesLast s)
    (hok : (resolveEach t (t.without s).paths).outcome = .ok ()) :
    (resolveEach t (t.without s).paths).tree.Detached s := by
  obtain ⟨hsound, hsettled⟩ := resolveEach_spec ht.memo fun p hp => (Tree.mem_paths_without.1 hp).1
  have hsame := hsound.grows.sameDocuments hsound.memo.proper
  refine ⟨hsound.memo, fun p q hp hpq => ht.outside p q hp (hsame.extends_iff.1 hpq), ?_⟩
  intro p q hp hpq
  have hq := ht.inside p q hp (hsame.extends_iff.1 hpq)
  refine ⟨hsound.grows.mem_paths hq, ?_⟩
  cases hqs : q.isUnder s with
  | true => exact .inl rfl
  | false => exact .inr (hsettled hok q (Tree.mem_paths_without.2 ⟨hq, hqs⟩))

theorem resolveEach_paths_without (ht : t.ComesLast s)
    (hok : (resolveEach t t.paths).outcome = .ok ()) :
    (resolveEach t t.paths).tree.Detached s ∧
      (resolveEach (t.without s) (t.without s).paths).tree =
        (resolveEach t t.paths).tree.without s ∧
      (resolveEach (t.without s) (t.without s).paths).outcome = .ok () := by
  obtain ⟨inside, hpaths, hunder⟩ := ht.last
  have hsplit : resolveEach t t.paths = (resolveEach t (t.without s).paths).andThen fun u _ =>
      resolveEach u inside := by
    rw [← resolveEach_append, ← hpaths]
  have hold (p : Path) (hp : p ∈ (t.without s).paths) := Tree.mem_paths_without.1 hp
  have hrelated := resolveEach_related (Tree.simulates_without s)
    ⟨⟨ht.memo.proper.fromEnd, ht.outside⟩, rfl⟩ _ fun p hp => (hold p hp).2
  rw [hsplit] at hok ⊢
  obtain ⟨⟨⟩, hone, hok', htree⟩ := Progress.andThen_eq_ok hok
  rw [htree]
  have hdetached := detached_of_resolveEach ht hone
  have hfirst : Sound t (resolveEach t (t.without s).paths) :=
    (resolveEach_spec ht.memo fun p hp => (hold p hp).1).1
  have hmem (p : Path) (hp : p ∈ inside) : p ∈ (resolveEach t (t.without s).paths).tree.paths :=
    hfirst.grows.mem_paths (hpaths ▸ List.mem_append_right _ hp)
  have hlater := (resolveEach_spec hfirst.memo hmem).1
  -- Nothing is resolved outside any more while the nodes inside are.
  have hnone : (inside.filter fun p => !p.isUnder s) = [] :=
    List.filter_eq_nil_iff.2 fun p hp => by simp [hunder p hp]
  obtain ⟨hsame, -⟩ := resolveEach_without hdetached hmem hok'
  rw [hnone] at hsame
  exact ⟨hdetached.grows hlater.grows hlater.memo, hrelated.tree.2.trans hsame,
    hrelated.outcome.trans hone⟩

/-- The nodes that were added outside are those that are added without the name. -/
theorem filter_pathsFrom (hgrows : t.GrowsTo u) (hu : u.Proper) (s : String) :
    ((pathsFrom t.size u).filter fun p => !p.isUnder s) =
      pathsFrom (t.without s).size (u.without s) := by
  obtain ⟨added, hadded, -⟩ := paths_of_grows hgrows hu
  have hsize : t.size = t.paths.length := (List.length_map ..).symm
  have hsize' : (t.without s).size = (t.without s).paths.length := (List.length_map ..).symm
  rw [pathsFrom_eq_drop, pathsFrom_eq_drop, Tree.paths_without, hsize', hadded, hsize,
    List.drop_left, List.filter_append, Tree.paths_without, List.drop_left]

/-- If a name comes last and all nodes can be resolved, then all nodes can be resolved without the
name, and it is all the same whether it is left out before or afterwards. -/
theorem resolveAll_without (ht : t.ComesLast s) (hok : (resolveAll t).outcome = .ok ()) :
    (resolveAll (t.without s)).tree = (resolveAll t).tree.without s ∧
      (resolveAll (t.without s)).outcome = .ok () := by
  have hall (t : Tree) : pathsFrom 0 t = t.paths := pathsFrom_eq_drop t 0
  have hsound := sound_round ht.memo 0
  rw [resolveAll, hall] at hok
  rw [resolveAll, resolveAll, hall, hall]
  rw [hall] at hsound
  obtain ⟨⟨⟩, hone, hok', hlater⟩ := Progress.andThen_eq_ok hok
  obtain ⟨hdetached, htree, hfirst⟩ := resolveEach_paths_without ht hone
  rw [hlater, Progress.andThen_of_ok hfirst, htree,
    ← filter_pathsFrom hsound.grows hsound.memo.proper]
  exact resolveEach_without hdetached (fun p hp => mem_paths_of_mem_pathsFrom hp) hok'

end Exclusion

end ApiTypings
