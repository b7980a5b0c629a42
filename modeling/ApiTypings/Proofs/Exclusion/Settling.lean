import ApiTypings.Proofs.Exclusion.Growth

/-!
Settled nodes stay settled, and rightly so.

A resolution climbs to the topmost node that is not settled and then settles nodes from there down.
It may fail at any point of this, with nodes added and nodes settled. `Tree.Memo` is what holds at
every such point: the tree is proper, a settled node holds a resolution that is derived from the
documents, and what it extends is settled as well. Each operation is shown to keep it, whatever
comes of the operation, while the tree only grows.
-/

namespace ApiTypings

/-- A tree in which the settled nodes hold what is derived for them. -/
structure Tree.Memo (t : Tree) : Prop where
  proper : t.Proper
  settled : ∀ p r, (t.nodeAt p).resolution = some r → t.Settles p r
  ready : ∀ p q r, (t.nodeAt p).resolution = some r → t.Extends p q →
    ∃ above, (t.nodeAt q).resolution = some above

namespace Exclusion

variable {α β : Type} {t u : Tree} {p q : Path} {above : Option Path} {record : TypeRecord}

/-- An operation on a tree that keeps it in order, however the operation ends. -/
structure Sound (t : Tree) (x : Progress α) : Prop where
  memo : x.tree.Memo
  grows : t.GrowsTo x.tree

theorem Sound.refl (h : t.Memo) (log : List Entry) (outcome : Except Fault α) :
    Sound t ⟨t, log, outcome⟩ := ⟨h, .refl t⟩

theorem Sound.trans {x : Progress α} (ht : t.GrowsTo u) (hu : u.Memo) (h : Sound u x) :
    Sound t x := ⟨h.memo, ht.trans hu.proper h.grows⟩

theorem Sound.andThen {x : Progress α} {f : Tree → α → Progress β} (hx : Sound t x)
    (hf : ∀ a, x.outcome = .ok a → Sound x.tree (f x.tree a)) : Sound t (x.andThen f) := by
  cases h : x.outcome with
  | error fault =>
      rw [Progress.andThen_of_error h]
      exact ⟨hx.memo, hx.grows⟩
  | ok a =>
      rw [Progress.andThen_of_ok h]
      have hy := (hf a h).trans hx.grows hx.memo
      exact ⟨hy.memo, hy.grows⟩

/-! ### Single steps -/

theorem memo_ensure (h : t.Memo) (hpq : t.Extends p q) : (t.ensure q true).Memo := by
  have hproper := h.proper.ensure q true
  have hsame := (Tree.GrowsTo.ensure h.proper hpq).sameDocuments hproper
  constructor
  · exact hproper
  · intro x r hr
    rw [Tree.resolution_nodeAt_ensure] at hr
    exact (h.settled x r hr).congr hsame
  · intro x y r hr hxy
    rw [Tree.resolution_nodeAt_ensure] at hr ⊢
    exact h.ready x y r hr (hsame.extends_iff.1 hxy)

/-- Settling a node with what is derived for it keeps the tree in order. That the node may be
settled already does no harm, since only one resolution can be derived. -/
theorem sound_modify (h : t.Memo) {r : Resolution} (hr : t.Settles p r)
    (hready : ∀ q, t.Extends p q → ∃ above, (t.nodeAt q).resolution = some above)
    (log : List Entry) (outcome : Except Fault α) :
    Sound t ⟨t.modify p fun n => { n with resolution := some r }, log, outcome⟩ := by
  have hproper : (t.modify p fun n => { n with resolution := some r }).Proper :=
    h.proper.modify fun _ => rfl
  have hgrows : t.GrowsTo (t.modify p fun n => { n with resolution := some r }) :=
    .settle h.proper fun r' hr' => (h.settled p r' hr').unique hr
  have hsame := hgrows.sameDocuments hproper
  have hnode (x : Path) := Tree.nodeAt_modify (t := t) (p := p)
    (f := fun n => { n with resolution := some r }) (fun _ => rfl) x
  refine ⟨⟨hproper, ?_, ?_⟩, hgrows⟩
  · intro x r' hr'
    rw [hnode] at hr'
    split at hr'
    next hx =>
      obtain rfl := Option.some.inj hr'
      rw [hx.1]
      exact hr.congr hsame
    · exact (h.settled x r' hr').congr hsame
  · intro x y r' hr' hxy
    have hxy' := hsame.extends_iff.1 hxy
    have hy : ∃ above, (t.nodeAt y).resolution = some above := by
      rw [hnode] at hr'
      split at hr'
      next hx => exact hready y (hx.1 ▸ hxy')
      · exact h.ready x y r' hr' hxy'
    obtain ⟨above, habove⟩ := hy
    exact ⟨above, hgrows.resolution hproper habove⟩

/-! ### The way down -/

/-- What a node passes on to those that extend it, or what a node inherits that extends none. -/
def Inherits (t : Tree) : Option Path → Exclusions → Prop
  | none, e => e = .empty
  | some q, e => ∃ r, (t.nodeAt q).resolution = some r ∧ r.excluded = e

/-- Nodes with their records, each extending the one before it, the first extending the node above
if there is one, and the last being the goal. -/
def Descends (t : Tree) (goal : Path) : Option Path → List (Path × TypeRecord) → Prop
  | above, [] => above = some goal
  | above, (p, record) :: rest =>
    (p ∈ t.paths ∧ t.wholeRecord p = .ok record ∧ t.extended? p = above) ∧
      Descends t goal (some p) rest

theorem Descends.mono {goal : Path} {pending : List (Path × TypeRecord)} (hgrows : t.GrowsTo u)
    (hu : u.Proper) (h : Descends t goal above pending) : Descends u goal above pending := by
  induction pending generalizing above with
  | nil => exact h
  | cons entry rest ih =>
      obtain ⟨⟨hp, hwhole, habove⟩, hrest⟩ := h
      have hsame := hgrows.sameDocuments hu
      exact ⟨⟨hgrows.mem_paths hp, by rw [hsame.wholeRecord, hwhole],
        by rw [hsame.extended?, habove]⟩, ih hrest⟩

theorem Descends.whole {goal : Path} {pending : List (Path × TypeRecord)}
    (h : Descends t goal above pending) :
    ∀ entry ∈ pending, t.wholeRecord entry.1 = .ok entry.2 := by
  induction pending generalizing above with
  | nil => simp
  | cons entry rest ih =>
      obtain ⟨⟨-, hwhole, -⟩, hrest⟩ := h
      exact List.forall_mem_cons.2 ⟨hwhole, ih hrest⟩

theorem settles_of_inherits (h : t.Memo) (hwhole : t.wholeRecord p = .ok record)
    {inherited : Exclusions} (hin : Inherits t (t.extended? p) inherited) {left : TypeRecord}
    (hleft : (removeExcluded record ((ownOf record).union inherited)).outcome = .ok left) :
    t.Settles p ⟨left, (ownOf record).union inherited⟩ := by
  cases hext : t.extended? p with
  | none =>
      rw [hext] at hin
      obtain rfl : inherited = .empty := hin
      exact .top hwhole hext hleft
  | some q =>
      rw [hext] at hin
      obtain ⟨r, hr, rfl⟩ := hin
      exact .under hwhole hext (h.settled q r hr) hleft

theorem settleOne_spec (h : t.Memo) (hp : p ∈ t.paths) (hwhole : t.wholeRecord p = .ok record)
    {inherited : Exclusions} (hin : Inherits t (t.extended? p) inherited) :
    Sound t (settleOne t p record inherited) ∧
      ∀ e, (settleOne t p record inherited).outcome = .ok e →
        Inherits (settleOne t p record inherited).tree (some p) e := by
  unfold settleOne
  cases hleft : (removeExcluded record ((ownOf record).union inherited)).outcome with
  | error fault =>
      simp only [hleft]
      exact ⟨.refl h _ _, by simp⟩
  | ok left =>
      simp only [hleft]
      have hsettles := settles_of_inherits h hwhole hin hleft
      have hready (q : Path) (hq : t.Extends p q) :
          ∃ above, (t.nodeAt q).resolution = some above := by
        rw [show t.extended? p = some q from hq] at hin
        obtain ⟨r, hr, -⟩ := hin
        exact ⟨r, hr⟩
      refine ⟨sound_modify h hsettles hready _ _, ?_⟩
      intro e he
      obtain rfl := Except.ok.inj he
      refine ⟨⟨left, (ownOf record).union inherited⟩, ?_, rfl⟩
      rw [Tree.nodeAt_modify
        (f := fun n => { n with resolution := some ⟨left, (ownOf record).union inherited⟩ })
        fun _ => rfl, if_pos ⟨rfl, hp⟩]

/-- Settling all nodes on the way down keeps the tree in order, and settles the goal unless a
fault ends it. -/
theorem settle_spec {goal : Path} {pending : List (Path × TypeRecord)} {inherited : Exclusions}
    (h : t.Memo) (hd : Descends t goal above pending) (hin : Inherits t above inherited) :
    Sound t (settle t pending inherited) ∧
      ∀ e, (settle t pending inherited).outcome = .ok e →
        Inherits (settle t pending inherited).tree (some goal) e := by
  induction pending generalizing t above inherited with
  | nil =>
      obtain rfl : above = some goal := hd
      refine ⟨.refl h _ _, ?_⟩
      intro e he
      obtain rfl := Except.ok.inj he
      exact hin
  | cons entry rest ih =>
      obtain ⟨p, record⟩ := entry
      obtain ⟨⟨hp, hwhole, rfl⟩, hrest⟩ := hd
      obtain ⟨hone, hout⟩ := settleOne_spec h hp hwhole hin
      rw [settle]
      cases hok : (settleOne t p record inherited).outcome with
      | error fault =>
          rw [Progress.andThen_of_error hok]
          exact ⟨⟨hone.memo, hone.grows⟩, by simp⟩
      | ok passed =>
          rw [Progress.andThen_of_ok hok]
          -- What this node passes on is what the next one inherits.
          obtain ⟨hsound, hgoal⟩ :=
            ih hone.memo (hrest.mono hone.grows hone.memo.proper) (hout passed hok)
          have htrans := hsound.trans hone.grows hone.memo
          exact ⟨⟨htrans.memo, htrans.grows⟩, hgoal⟩

/-! ### The way up -/

theorem extends_of_record {target : String} (hwhole : t.wholeRecord p = .ok record)
    (htarget : record.extends? = some target) :
    t.Extends p (Path.ofName t.rootName target) := by
  rw [Tree.Extends, Tree.extended?_of_whole hwhole, htarget, Option.map_some]

theorem sound_climb (h : t.Memo) (met : List String) : Sound t (climb t p met) := by
  fun_induction climb t p met with
  | case1 => exact .refl h _ _
  | case2 => exact .refl h _ _
  | case3 => exact .refl h _ _
  | case4 => exact .refl h _ _
  | case5 t met record _ target htarget above remarks _ hwhole =>
      have hextends := extends_of_record hwhole htarget
      exact ⟨memo_ensure h hextends, .ensure h.proper hextends⟩
  | case6 t p met _ record hwhole _ target htarget above remarks hne rest ih =>
      have hextends := extends_of_record hwhole htarget
      have hmemo := memo_ensure h hextends
      have hsound := (ih hmemo).trans (.ensure h.proper hextends) hmemo
      exact ⟨hsound.memo, hsound.grows⟩

/-- The records that a climb returns lead down to where it started, from a node that is settled or
from one that extends nothing. What is to come below is left open, so that the induction can put
the node itself in front of it. -/
theorem climb_descends (h : t.Memo) (hp : p ∈ t.paths) (met : List String) (goal : Path) :
    ∀ l rest, (climb t p met).outcome = .ok l →
      Descends (climb t p met).tree goal (some p) rest →
      ∃ above, Inherits (climb t p met).tree above l.inherited ∧
        Descends (climb t p met).tree goal above (l.pending ++ rest) := by
  have hsound := sound_climb (p := p) h met
  fun_induction climb t p met with
  | case1 t p met settled hsettled =>
      intro l rest hok hrest
      obtain rfl := Except.ok.inj hok
      exact ⟨some p, ⟨settled, hsettled, rfl⟩, hrest⟩
  | case2 => simp
  | case3 => simp
  | case4 t p met _ record hwhole _ htop =>
      intro l rest hok hrest
      obtain rfl := Except.ok.inj hok
      have habove : t.extended? p = none := by rw [Tree.extended?_of_whole hwhole, htop]; rfl
      exact ⟨none, rfl, ⟨hp, hwhole, habove⟩, hrest⟩
  | case5 => simp
  | case6 t p met _ record hwhole _ target htarget above remarks hne up ih =>
      intro l rest hok hrest
      have hextends := extends_of_record hwhole htarget
      have hsame := hsound.grows.sameDocuments hsound.memo.proper
      cases hup : up.outcome with
      | error fault => simp [hup, Except.map] at hok
      | ok l' =>
          obtain rfl : l'.push p record = l := by simpa [hup, Except.map] using hok
          have hmemo := memo_ensure h hextends
          -- The node itself comes in front of what was left open below it.
          have hstep : p ∈ up.tree.paths ∧ up.tree.wholeRecord p = .ok record ∧
              up.tree.extended? p = some above :=
            ⟨hsound.grows.mem_paths hp, (hsame.wholeRecord p).trans hwhole,
              hsame.extends_iff.2 hextends⟩
          obtain ⟨start, hin, hdown⟩ := ih hmemo h.proper.mem_paths_ensure_self
            (sound_climb hmemo _) l' ((p, record) :: rest) hup ⟨hstep, hrest⟩
          refine ⟨start, hin, ?_⟩
          rw [Lineage.push, List.append_assoc, List.singleton_append]
          exact hdown

/-! ### Whole resolutions -/

/-- Resolving a node keeps the tree in order, and settles the node unless it fails. -/
theorem resolve_spec (h : t.Memo) (hp : p ∈ t.paths) :
    Sound t (resolve t p) ∧
      ∀ e, (resolve t p).outcome = .ok e → Inherits (resolve t p).tree (some p) e := by
  have hclimb := sound_climb (p := p) h []
  rw [resolve]
  cases hok : (climb t p []).outcome with
  | error fault =>
      rw [Progress.andThen_of_error hok]
      exact ⟨⟨hclimb.memo, hclimb.grows⟩, by simp⟩
  | ok l =>
      rw [Progress.andThen_of_ok hok]
      obtain ⟨above, hin, hdown⟩ := climb_descends h hp [] p l [] hok rfl
      rw [List.append_nil] at hdown
      obtain ⟨hsettle, hgoal⟩ := settle_spec hclimb.memo hdown hin
      have hsound := hsettle.trans hclimb.grows hclimb.memo
      exact ⟨⟨hsound.memo, hsound.grows⟩, hgoal⟩

theorem resolveEach_spec {ps : List Path} (h : t.Memo) (hps : ∀ p ∈ ps, p ∈ t.paths) :
    Sound t (resolveEach t ps) ∧
      ((resolveEach t ps).outcome = .ok () →
        ∀ p ∈ ps, ∃ r, ((resolveEach t ps).tree.nodeAt p).resolution = some r) := by
  induction ps generalizing t with
  | nil => exact ⟨.refl h _ _, by simp⟩
  | cons p rest ih =>
      obtain ⟨hp, hrest⟩ := List.forall_mem_cons.1 hps
      obtain ⟨hone, hout⟩ := resolve_spec h hp
      rw [resolveEach]
      cases hok : (resolve t p).outcome with
      | error fault =>
          rw [Progress.andThen_of_error hok]
          exact ⟨⟨hone.memo, hone.grows⟩, by simp⟩
      | ok e =>
          rw [Progress.andThen_of_ok hok]
          obtain ⟨hsound, hall⟩ := ih hone.memo fun q hq => hone.grows.mem_paths (hrest q hq)
          have htrans := hsound.trans hone.grows hone.memo
          refine ⟨⟨htrans.memo, htrans.grows⟩, ?_⟩
          intro hok' q hq
          rcases List.mem_cons.1 hq with rfl | hq
          · obtain ⟨r, hr, -⟩ := hout e hok
            exact ⟨r, hsound.grows.resolution hsound.memo.proper hr⟩
          · exact hall hok' q hq

theorem mem_paths_of_mem_pathsFrom {count : Nat} (h : p ∈ pathsFrom count t) : p ∈ t.paths := by
  rw [pathsFrom, List.map_drop] at h
  exact List.mem_of_mem_drop h

theorem sound_round (h : t.Memo) (count : Nat) :
    Sound t (resolveEach t (pathsFrom count t)) :=
  (resolveEach_spec h fun _ hp => mem_paths_of_mem_pathsFrom hp).1

/-- Resolving all nodes keeps the tree in order. -/
theorem sound_resolveAll (h : t.Memo) : Sound t (resolveAll t) :=
  (sound_round h 0).andThen fun _ _ => sound_round (sound_round h 0).memo _

end Exclusion

end ApiTypings
