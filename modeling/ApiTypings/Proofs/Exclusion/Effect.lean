import ApiTypings.Proofs.Exclusion.Circle

/-!
What resolving a node settles.

Where names tell nodes apart, this can be said of a request without regard to those before it. If
the way up from a node can be climbed, then all nodes on it are settled that can be settled at all,
and otherwise none is. That some of them were settled before makes no difference.
-/

namespace ApiTypings

open Exclusion

namespace Tree

variable {t u : Tree} {p q x : Path} {r : Resolution}

/-- Whether the node at a path is settled. -/
def IsReady (t : Tree) (p : Path) : Prop := ∃ r, (t.nodeAt p).resolution = some r

/-- Whether there is a resolution for a node. -/
def Settleable (t : Tree) (p : Path) : Prop := ∃ r, t.Settles p r

theorem Settleable.reaches (h : t.Settleable p) (hpx : Relation.ReflTransGen t.Extends p x) :
    t.Settleable x := by
  induction hpx with
  | refl => exact h
  | tail _ hstep ih =>
      obtain ⟨r, hr⟩ := ih
      cases hr with
      | top _ htop _ => exact absurd (htop.symm.trans hstep) (by simp)
      | under _ hextends habove _ => exact hextends.unique hstep ▸ ⟨_, habove⟩

theorem SameDocuments.settleable_iff (h : SameDocuments t u) :
    u.Settleable p ↔ t.Settleable p :=
  ⟨fun ⟨r, hr⟩ => ⟨r, hr.congr h.symm⟩, fun ⟨r, hr⟩ => ⟨r, hr.congr h⟩⟩

theorem settleable_of_doc_nil (h : (t.nodeAt p).doc = []) : t.Settleable p := by
  have hwhole : t.wholeRecord p = TypeRecord.ofFields [] (t.fullName p) := by rw [wholeRecord, h]
  exact ⟨_, .top hwhole (extended?_of_doc_nil h) rfl⟩

theorem IsReady.settleable (h : t.Memo) (hp : t.IsReady p) : t.Settleable p := by
  obtain ⟨r, hr⟩ := hp
  exact ⟨r, h.settled p r hr⟩

/-- What a settled node reaches is settled. -/
theorem IsReady.reaches (h : t.Memo) (hp : t.IsReady p)
    (hpx : Relation.ReflTransGen t.Extends p x) : t.IsReady x := by
  induction hpx with
  | refl => exact hp
  | tail _ hstep ih =>
      obtain ⟨r, hr⟩ := ih
      exact h.ready _ _ r hr hstep

theorem IsReady.grows (hgrows : t.GrowsTo u) (hu : u.Proper) (hp : t.IsReady p) :
    u.IsReady p := by
  obtain ⟨r, hr⟩ := hp
  exact ⟨r, hgrows.resolution hu hr⟩

end Tree

namespace Exclusion

variable {t u : Tree} {p q x : Path} {above : Option Path} {goal : Path}
  {pending : List (Path × TypeRecord)} {inherited : Exclusions} {fault : Fault}

/-! ### The nodes of a way -/

theorem Descends.reaches (h : Descends t goal above pending) :
    (∀ q, above = some q → Relation.ReflTransGen t.Extends goal q) ∧
      ∀ entry ∈ pending, Relation.ReflTransGen t.Extends goal entry.1 := by
  induction pending generalizing above with
  | nil =>
      obtain rfl : above = some goal := h
      refine ⟨?_, by simp⟩
      rintro q hq
      obtain rfl := Option.some.inj hq
      exact .refl
  | cons entry rest ih =>
      obtain ⟨⟨-, -, habove⟩, hrest⟩ := h
      obtain ⟨hhead, htail⟩ := ih hrest
      have hentry := hhead entry.1 rfl
      refine ⟨?_, List.forall_mem_cons.2 ⟨hentry, htail⟩⟩
      rintro q rfl
      exact hentry.tail habove

/-- All that the goal of a way reaches is on the way or reached by the node above. -/
theorem Descends.mem_or_reaches (h : Descends t goal above pending)
    (hx : Relation.ReflTransGen t.Extends goal x) :
    (∃ entry ∈ pending, entry.1 = x) ∨
      ∃ q, above = some q ∧ Relation.ReflTransGen t.Extends q x := by
  induction pending generalizing above with
  | nil => exact .inr ⟨goal, h, hx⟩
  | cons entry rest ih =>
      obtain ⟨⟨-, -, habove⟩, hrest⟩ := h
      rcases ih hrest with ⟨other, hother, rfl⟩ | ⟨q, hq, hqx⟩
      · exact .inl ⟨other, List.mem_cons_of_mem _ hother, rfl⟩
      · obtain rfl := Option.some.inj hq
        rcases Relation.ReflTransGen.cases_head hqx with rfl | ⟨y, hstep, hyx⟩
        · exact .inl ⟨entry, List.mem_cons_self, rfl⟩
        · exact .inr ⟨y, habove.symm.trans hstep, hyx⟩

theorem Descends.climbs (h : Descends t goal above pending)
    (habove : ∀ q, above = some q → t.Climbs q) : t.Climbs goal := by
  induction pending generalizing above with
  | nil => exact habove goal h
  | cons entry rest ih =>
      obtain ⟨⟨-, hwhole, hextended⟩, hrest⟩ := h
      refine ih hrest fun q hq => ?_
      obtain rfl := Option.some.inj hq
      cases above with
      | none => exact .top hwhole hextended
      | some y => exact .under hwhole hextended (habove y rfl)

/-- All nodes of a way reach the node above it. -/
theorem Descends.reaches_above (h : Descends t goal (some q) pending) :
    ∀ entry ∈ pending, Relation.ReflTransGen t.Extends entry.1 q := by
  induction pending generalizing q with
  | nil => simp
  | cons entry rest ih =>
      obtain ⟨⟨-, -, hextends⟩, hrest⟩ := h
      exact List.forall_mem_cons.2 ⟨.single hextends, fun other hother =>
        (ih hrest other hother).tail hextends⟩

/-! ### What is left alone -/

theorem resolution_climb (t : Tree) (p : Path) (met : List String) (x : Path) :
    ((climb t p met).tree.nodeAt x).resolution = (t.nodeAt x).resolution := by
  fun_induction climb t p met with
  | case5 => exact Tree.resolution_nodeAt_ensure _ _ _ _
  | case6 t p met hr record hwhole hname target htarget above remarks hne up ih =>
      exact ih.trans (Tree.resolution_nodeAt_ensure _ _ _ _)
  | _ => rfl

theorem resolution_settleOne {record : TypeRecord} (hx : x ≠ p) :
    ((settleOne t p record inherited).tree.nodeAt x).resolution = (t.nodeAt x).resolution := by
  unfold settleOne
  dsimp only
  split
  · rfl
  next left _ =>
    rw [Tree.nodeAt_modify
      (f := fun n => { n with resolution := some ⟨left, (ownOf record).union inherited⟩ })
      fun _ => rfl, if_neg fun h => hx h.1]

theorem resolution_settle (hx : ∀ entry ∈ pending, entry.1 ≠ x) :
    ((settle t pending inherited).tree.nodeAt x).resolution = (t.nodeAt x).resolution := by
  induction pending generalizing t inherited with
  | nil => rfl
  | cons entry rest ih =>
      obtain ⟨p, record⟩ := entry
      obtain ⟨hp, hrest⟩ := List.forall_mem_cons.1 hx
      have hone : ((settleOne t p record inherited).tree.nodeAt x).resolution =
          (t.nodeAt x).resolution := resolution_settleOne hp.symm
      rw [settle]
      cases hok : (settleOne t p record inherited).outcome with
      | error fault => rw [Progress.andThen_of_error hok, hone]
      | ok passed => rw [Progress.andThen_of_ok hok, ih hrest, hone]

/-! ### What is settled -/

theorem settleOne_of_settleable {record : TypeRecord} (h : t.Memo)
    (hwhole : t.wholeRecord p = .ok record) (hin : Inherits t (t.extended? p) inherited)
    (hs : t.Settleable p) : ∃ e, (settleOne t p record inherited).outcome = .ok e := by
  obtain ⟨r, hr⟩ := hs
  have hleft : ∃ left,
      (removeExcluded record ((ownOf record).union inherited)).outcome = .ok left := by
    cases hr with
    | top hwhole' htop hleft =>
        obtain rfl := Except.ok.inj (hwhole.symm.trans hwhole')
        rw [htop] at hin
        obtain rfl : inherited = .empty := hin
        exact ⟨_, hleft⟩
    | under hwhole' hextends habove hleft =>
        obtain rfl := Except.ok.inj (hwhole.symm.trans hwhole')
        rw [show t.extended? p = some _ from hextends] at hin
        obtain ⟨r', hr', rfl⟩ := hin
        obtain rfl := habove.unique (h.settled _ r' hr')
        exact ⟨_, hleft⟩
  obtain ⟨left, hleft⟩ := hleft
  exact ⟨(ownOf record).union inherited, by simp only [settleOne, hleft]⟩

/-- The way down settles each node of it that can be settled: if there is one below a node, then
the node can be settled itself. -/
theorem settle_settles (h : t.Memo) (hd : Descends t goal above pending)
    (hin : Inherits t above inherited) :
    (∀ entry ∈ pending, t.Settleable entry.1 →
        (settle t pending inherited).tree.IsReady entry.1) ∧
      (t.Settleable goal → ∃ e, (settle t pending inherited).outcome = .ok e) := by
  induction pending generalizing t above inherited with
  | nil => exact ⟨by simp, fun _ => ⟨inherited, rfl⟩⟩
  | cons entry rest ih =>
      obtain ⟨p, record⟩ := entry
      obtain ⟨⟨hp, hwhole, rfl⟩, hrest⟩ := hd
      obtain ⟨hone, hout⟩ := settleOne_spec h hp hwhole hin
      rw [settle]
      cases hok : (settleOne t p record inherited).outcome with
      | error fault =>
          -- The nodes below this one need it settled, so none of them can be settled either.
          have hnot : ¬t.Settleable p := by
            intro hs
            obtain ⟨e, he⟩ := settleOne_of_settleable h hwhole hin hs
            simp [hok] at he
          rw [Progress.andThen_of_error hok]
          refine ⟨?_, fun hgoal => absurd (hgoal.reaches (hrest.reaches.1 p rfl)) hnot⟩
          intro entry hentry hs
          rcases List.mem_cons.1 hentry with rfl | hentry
          · exact absurd hs hnot
          · exact absurd (hs.reaches (hrest.reaches_above entry hentry)) hnot
      | ok passed =>
          rw [Progress.andThen_of_ok hok]
          have hdown := hrest.mono hone.grows hone.memo.proper
          have hsound := (settle_spec hone.memo hdown (hout passed hok)).1
          have hsame := hone.grows.sameDocuments hone.memo.proper
          obtain ⟨hready, hgoal⟩ := ih hone.memo hdown (hout passed hok)
          refine ⟨?_, fun hs => hgoal (hsame.settleable_iff.2 hs)⟩
          intro entry hentry hs
          rcases List.mem_cons.1 hentry with rfl | hentry
          · obtain ⟨r, hr, -⟩ := hout passed hok
            exact Tree.IsReady.grows hsound.grows hsound.memo.proper ⟨r, hr⟩
          · exact hready entry hentry (hsame.settleable_iff.2 hs)

/-- Resolving a node settles another one: the way up can be climbed, the other node is on it, and it
can be settled. -/
def Yields (t : Tree) (p x : Path) : Prop :=
  t.Climbs p ∧ Relation.ReflTransGen t.Extends p x ∧ t.Settleable x

section Resolve

variable (hnames : t.NamesNodes) (hu : u.Memo) (hgrows : t.GrowsTo u)

include hnames hu hgrows

theorem climb_of_climbs (hp : p ∈ u.paths) (h : t.Climbs p) :
    ∃ l, (climb u p []).outcome = .ok l := by
  cases hok : (climb u p []).outcome with
  | ok l => exact ⟨l, rfl⟩
  | error fault =>
      obtain ⟨x, hpx, ⟨-, hcircle⟩ | hwhole⟩ :=
        climb_fault hnames hu hgrows (plain_of_grows hnames hgrows hp) (by simp [Met]) hok
      · exact absurd hcircle (h.reaches hpx).not_circular
      · obtain ⟨whole, hread⟩ := (h.reaches hpx).readable
        exact absurd (hwhole.symm.trans hread) (by simp)

theorem isReady_resolve (hp : p ∈ u.paths) :
    (resolve u p).tree.IsReady x ↔ u.IsReady x ∨ Yields t p x := by
  have hclimb := sound_climb (p := p) hu []
  have hsame := (hgrows.trans hu.proper hclimb.grows).sameDocuments hclimb.memo.proper
  rw [resolve]
  cases hok : (climb u p []).outcome with
  | error fault =>
      have hnot : ¬t.Climbs p := by
        intro h
        obtain ⟨l, hl⟩ := climb_of_climbs hnames hu hgrows hp h
        simp [hok] at hl
      rw [Progress.andThen_of_error hok, Tree.IsReady, resolution_climb]
      exact ⟨.inl, fun h => h.resolve_right fun hyields => hnot hyields.1⟩
  | ok l =>
      obtain ⟨above, hin, hdown⟩ := climb_descends hu hp [] p l [] hok rfl
      rw [List.append_nil] at hdown
      have hsettle := (settle_spec hclimb.memo hdown hin).1
      have hsame' := hsame.trans (hsettle.grows.sameDocuments hsettle.memo.proper)
      rw [Progress.andThen_of_ok hok]
      constructor
      · intro hx
        -- What is settled only now is one of the nodes that the climb returned.
        by_cases hmem : ∃ entry ∈ l.pending, entry.1 = x
        · obtain ⟨entry, hentry, rfl⟩ := hmem
          refine .inr ⟨?_, ?_, hsame'.settleable_iff.1 (hx.settleable hsettle.memo)⟩
          · refine (hdown.climbs fun q hq => ?_).congr hsame.symm
            subst hq
            obtain ⟨r, hr, -⟩ := hin
            exact (hclimb.memo.settled q r hr).climbs
          · exact hsame.extends_eq ▸ hdown.reaches.2 entry hentry
        · rw [Tree.IsReady, resolution_settle fun entry hentry he => hmem ⟨entry, hentry, he⟩,
            resolution_climb] at hx
          exact .inl hx
      · rintro (hx | ⟨-, hpx, hx⟩)
        · exact (hx.grows hclimb.grows hclimb.memo.proper).grows hsettle.grows hsettle.memo.proper
        · rw [← hsame.extends_eq] at hpx
          rcases hdown.mem_or_reaches hpx with ⟨entry, hentry, rfl⟩ | ⟨q, rfl, hqx⟩
          · exact (settle_settles hclimb.memo hdown hin).1 entry hentry (hsame.settleable_iff.2 hx)
          · obtain ⟨r, hr, -⟩ := hin
            have hready := Tree.IsReady.reaches hclimb.memo ⟨r, hr⟩ hqx
            exact hready.grows hsettle.grows hsettle.memo.proper

theorem resolve_ok_iff (hp : p ∈ u.paths) :
    (∃ e, (resolve u p).outcome = .ok e) ↔ t.Settleable p := by
  have hsame := hgrows.sameDocuments hu.proper
  constructor
  · rintro ⟨e, he⟩
    obtain ⟨hsound, hout⟩ := resolve_spec hu hp
    obtain ⟨r, hr, -⟩ := hout e he
    have hsame' := hsame.trans (hsound.grows.sameDocuments hsound.memo.proper)
    exact hsame'.settleable_iff.1 ⟨r, hsound.memo.settled p r hr⟩
  · rintro ⟨r, hr⟩
    have hclimb := sound_climb (p := p) hu []
    obtain ⟨l, hl⟩ := climb_of_climbs hnames hu hgrows hp hr.climbs
    obtain ⟨above, hin, hdown⟩ := climb_descends hu hp [] p l [] hl rfl
    rw [List.append_nil] at hdown
    have hsame' := hsame.trans (hclimb.grows.sameDocuments hclimb.memo.proper)
    rw [resolve, Progress.andThen_of_ok hl]
    exact (settle_settles hclimb.memo hdown hin).2 ⟨r, hr.congr hsame'⟩

end Resolve

end Exclusion

end ApiTypings
