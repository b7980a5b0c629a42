import ApiTypings.Proofs.Exclusion.Closure

/-!
What ends a resolution.

A climb ends without a result over a circle or over a document that cannot be read, and the way down
over a member whose name cannot be compared. The documents stay what they were all along, so that
the causes can be told from the tree that the resolution started with.
-/

namespace ApiTypings

open Exclusion

/-- A record with a method or a property whose name cannot be compared with others. -/
def TypeRecord.HasIncomparable (record : TypeRecord) : Prop :=
  (∃ m ∈ record.methods, m.name.nameKey? = none) ∨
    ∃ p ∈ record.properties, p.name.nameKey? = none

namespace Tree

/-- Whether some node has a member whose name cannot be compared with others. -/
def HasIncomparable (t : Tree) : Prop :=
  ∃ n ∈ t.nodes, ∃ whole, t.wholeRecord n.path = .ok whole ∧ whole.HasIncomparable

variable {t : Tree} {p : Path} {whole : TypeRecord}

theorem hasIncomparable_of_whole (hwhole : t.wholeRecord p = .ok whole)
    (h : whole.HasIncomparable) : t.HasIncomparable := by
  have hp : p ∈ t.paths := by
    refine path_mem_of_doc fun hdoc => ?_
    rw [wholeRecord, hdoc] at hwhole
    obtain rfl := Except.ok.inj hwhole
    rcases h with ⟨m, hm, -⟩ | ⟨m, hm, -⟩
    · exact absurd hm List.not_mem_nil
    · exact absurd hm List.not_mem_nil
  exact ⟨t.nodeAt p, nodeAt_mem_nodes hp, whole, (path_nodeAt t p).symm ▸ hwhole, h⟩

end Tree

namespace Exclusion

variable {t u : Tree} {p : Path} {fault : Fault}

/-! ### The way down -/

theorem isAmong_fault {name : Json} {names : List NameKey}
    (h : name.isAmong names = .error fault) : fault = .notAName ∧ name.nameKey? = none := by
  rw [Json.isAmong, Json.comparable] at h
  cases hkey : name.nameKey? with
  | none => simpa [hkey, Except.map, eq_comm] using h
  | some key => simp [hkey, Except.map] at h

theorem membersBeyond_fault {α : Type} {nameOf : α → Json} {names : List NameKey}
    {members : List α} (h : membersBeyond nameOf names members = .error fault) :
    fault = .notAName ∧ ∃ m ∈ members, (nameOf m).nameKey? = none := by
  induction members with
  | nil => simp [membersBeyond] at h
  | cons m rest ih =>
      rw [membersBeyond] at h
      cases hm : (nameOf m).isAmong names with
      | error f =>
          obtain rfl : f = fault := by simpa [hm, bind, Except.bind] using h
          obtain ⟨hfault, hkey⟩ := isAmong_fault hm
          exact ⟨hfault, m, List.mem_cons_self, hkey⟩
      | ok dropped =>
          cases hrest : membersBeyond nameOf names rest with
          | error f =>
              obtain rfl : f = fault := by simpa [hm, hrest, bind, Except.bind] using h
              obtain ⟨hfault, x, hx, hkey⟩ := ih hrest
              exact ⟨hfault, x, List.mem_cons_of_mem _ hx, hkey⟩
          | ok others => simp [hm, hrest, bind, Except.bind, pure, Except.pure] at h

theorem remaining_fault {α : Type} {nameOf : α → Json} {names : List String} {members : List α}
    (h : remaining nameOf names members = .error fault) :
    fault = .notAName ∧ ∃ m ∈ members, (nameOf m).nameKey? = none := by
  unfold remaining at h
  split at h
  · simp at h
  · exact membersBeyond_fault h

theorem removeExcluded_fault {whole : TypeRecord} {excluded : Exclusions}
    (h : (removeExcluded whole excluded).outcome = .error fault) :
    fault = .notAName ∧ whole.HasIncomparable := by
  rw [outcome_removeExcluded] at h
  cases hm : remaining Method.name excluded.methods whole.methods with
  | error f =>
      obtain rfl : f = fault := by simpa [hm, Except.bind] using h
      obtain ⟨hfault, hkey⟩ := remaining_fault hm
      exact ⟨hfault, .inl hkey⟩
  | ok methods =>
      cases hp : remaining Property.name excluded.properties whole.properties with
      | error f =>
          obtain rfl : f = fault := by simpa [hm, hp, Except.bind, Except.map] using h
          obtain ⟨hfault, hkey⟩ := remaining_fault hp
          exact ⟨hfault, .inr hkey⟩
      | ok properties => simp [hm, hp, Except.bind, Except.map] at h

theorem settleOne_fault {record : TypeRecord} {inherited : Exclusions}
    (h : (settleOne t p record inherited).outcome = .error fault) :
    fault = .notAName ∧ record.HasIncomparable := by
  unfold settleOne at h
  cases hleft : (removeExcluded record ((ownOf record).union inherited)).outcome with
  | error f =>
      obtain rfl : f = fault := by simpa [hleft] using h
      exact removeExcluded_fault hleft
  | ok left => simp [hleft] at h

/-- Only the name of a member can end the way down. -/
theorem settle_fault {pending : List (Path × TypeRecord)} {inherited : Exclusions}
    (h : (settle t pending inherited).outcome = .error fault) :
    fault = .notAName ∧ ∃ entry ∈ pending, entry.2.HasIncomparable := by
  induction pending generalizing t inherited with
  | nil => simp [settle] at h
  | cons entry rest ih =>
      obtain ⟨p, record⟩ := entry
      rw [settle] at h
      cases hone : (settleOne t p record inherited).outcome with
      | error f =>
          rw [Progress.andThen_of_error hone] at h
          obtain rfl := Except.error.inj h
          obtain ⟨hfault, hrecord⟩ := settleOne_fault hone
          exact ⟨hfault, (p, record), List.mem_cons_self, hrecord⟩
      | ok passed =>
          rw [Progress.andThen_of_ok hone] at h
          obtain ⟨hfault, x, hx, hrecord⟩ := ih h
          exact ⟨hfault, x, List.mem_cons_of_mem _ hx, hrecord⟩

/-! ### The way up -/

/-- A climb is ended by a record name that it meets twice, or by a document that cannot be read. -/
theorem climb_fault_cases {met : List String} (hu : u.Memo) (hgrows : t.GrowsTo u)
    (h : (climb u p met).outcome = .error fault) :
    (∃ chain, fault = .cycle chain) ∨ ∃ x, t.wholeRecord x = .error fault := by
  fun_induction climb u p met with
  | case1 => simp at h
  | case2 u p met hr f hwhole =>
      obtain rfl := Except.error.inj h
      have hsame := hgrows.sameDocuments hu.proper
      exact .inr ⟨p, (hsame.wholeRecord p).symm.trans hwhole⟩
  | case3 =>
      obtain rfl := Except.error.inj h
      exact .inl ⟨_, rfl⟩
  | case4 => simp at h
  | case5 =>
      obtain rfl := Except.error.inj h
      exact .inl ⟨_, rfl⟩
  | case6 u p met hr record hwhole hname target htarget above remarks hne up ih =>
      have hextends := extends_of_record hwhole htarget
      refine ih (memo_ensure hu hextends)
        (hgrows.trans hu.proper (.ensure hu.proper hextends)) ?_
      cases hup : up.outcome with
      | error f => simpa [hup, Except.map] using h
      | ok l => simp [hup, Except.map] at h

/-! ### Whole resolutions -/

/-- A resolution ends where its climb does, or over a name that cannot be compared. -/
theorem resolve_fault_cases (hu : u.Memo) (hgrows : t.GrowsTo u) (hp : p ∈ u.paths)
    (h : (resolve u p).outcome = .error fault) :
    (climb u p []).outcome = .error fault ∨ fault = .notAName ∧ t.HasIncomparable := by
  have hclimb := sound_climb (p := p) hu []
  rw [resolve] at h
  cases hok : (climb u p []).outcome with
  | error f =>
      rw [Progress.andThen_of_error hok] at h
      exact .inl (congrArg _ (Except.error.inj h))
  | ok l =>
      rw [Progress.andThen_of_ok hok] at h
      -- The records that are settled are those that the climb has read from the documents.
      obtain ⟨rfl, entry, hentry, hrecord⟩ := settle_fault h
      obtain ⟨above, -, hdown⟩ := climb_descends hu hp [] p l [] hok rfl
      rw [List.append_nil] at hdown
      have hsame := (hgrows.trans hu.proper hclimb.grows).sameDocuments hclimb.memo.proper
      have hwhole := (hsame.wholeRecord entry.1).symm.trans (hdown.whole entry hentry)
      exact .inr ⟨rfl, Tree.hasIncomparable_of_whole hwhole hrecord⟩

variable {C : Fault → Prop}

theorem resolveEach_fault_induction
    (hone : ∀ u p fault, u.Memo → t.GrowsTo u → p ∈ u.paths →
      (resolve u p).outcome = .error fault → C fault)
    {ps : List Path} (hu : u.Memo) (hgrows : t.GrowsTo u) (hps : ∀ p ∈ ps, p ∈ u.paths)
    (h : (resolveEach u ps).outcome = .error fault) : C fault := by
  induction ps generalizing u with
  | nil => simp [resolveEach] at h
  | cons p rest ih =>
      obtain ⟨hp, hrest⟩ := List.forall_mem_cons.1 hps
      have hstep := (resolve_spec hu hp).1
      rw [resolveEach] at h
      cases hok : (resolve u p).outcome with
      | error f =>
          rw [Progress.andThen_of_error hok] at h
          obtain rfl := Except.error.inj h
          exact hone u p _ hu hgrows hp hok
      | ok e =>
          rw [Progress.andThen_of_ok hok] at h
          exact ih hstep.memo (hgrows.trans hu.proper hstep.grows)
            (fun q hq => hstep.grows.mem_paths (hrest q hq)) h

/-- What is true of the faults of single resolutions, in whatever the tree has grown to, is true of
the faults of resolving all nodes. -/
theorem resolveAll_fault_induction
    (hone : ∀ u p fault, u.Memo → t.GrowsTo u → p ∈ u.paths →
      (resolve u p).outcome = .error fault → C fault)
    (ht : t.Memo) (h : (resolveAll t).outcome = .error fault) : C fault := by
  have hfirst := sound_round ht 0
  rw [resolveAll] at h
  cases hok : (resolveEach t (pathsFrom 0 t)).outcome with
  | error f =>
      rw [Progress.andThen_of_error hok] at h
      obtain rfl := Except.error.inj h
      exact resolveEach_fault_induction hone ht (.refl t)
        (fun _ hp => mem_paths_of_mem_pathsFrom hp) hok
  | ok _ =>
      rw [Progress.andThen_of_ok hok] at h
      exact resolveEach_fault_induction hone hfirst.memo hfirst.grows
        (fun _ hp => mem_paths_of_mem_pathsFrom hp) h

/-- Where all documents can be read and all names of members compared, only a circle is left to end
a resolution. -/
theorem resolveAll_fault_of_readable (hparse : ∀ p, ∃ whole, t.wholeRecord p = .ok whole)
    (hcomparable : ¬t.HasIncomparable) (ht : t.Memo)
    (h : (resolveAll t).outcome = .error fault) : ∃ chain, fault = .cycle chain := by
  refine resolveAll_fault_induction (C := fun fault => ∃ chain, fault = .cycle chain) ?_ ht h
  intro u p fault hu hgrows hp hone
  rcases resolve_fault_cases hu hgrows hp hone with hclimb | ⟨-, hincomparable⟩
  · rcases climb_fault_cases hu hgrows hclimb with hcycle | ⟨x, hwhole⟩
    · exact hcycle
    · obtain ⟨whole, hparsed⟩ := hparse x
      exact absurd (hwhole.symm.trans hparsed) (by simp)
  · exact absurd hincomparable hcomparable

end Exclusion

end ApiTypings
