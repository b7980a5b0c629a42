import ApiTypings.Proofs.Logging.Lifecycle
import ApiTypings.Proofs.Storage.Failure

/-!
Setting up logging.

A log file that cannot be opened is left out. The set-up ends in a fault only if a setting cannot be
read or the log file has a location that cannot be looked for.
-/

namespace ApiTypings.Logging

variable {s : Surroundings}

theorem LogFile.sane_create {location : String} (hdirectory : '\x00' ∉ s.directory.toList)
    (hlocation : '\x00' ∉ location.toList) : (create s location).Sane := by
  intro d e he
  rw [create, Storing.on_get_bind] at he
  cases hwritable : d.writable s.directory (Location.absolute s location) with
  | error cause =>
    have hfailed : cause = e := by
      rw [hwritable] at he
      exact Except.error.inj he
    have hwhole := Storing.zero_not_mem_absolute hdirectory hlocation
    exact hfailed ▸ Disk.cause_of_writable hwhole hwritable
  | ok place =>
    have hcreated : (Except.ok place : Except DiskError Place) = .error e := by
      rw [hwritable] at he
      exact he
    cases hcreated

namespace Setup

variable {α β : Type} {x : Setup α} {f : α → Setup β}

/-- A change of a session that does not end in a fault. -/
def Succeeds (x : Setup α) : Prop := ∀ session, ∃ a, (x.on session).1 = .ok a

theorem succeeds_pure (a : α) : Succeeds (pure a : Setup α) := fun _ => ⟨a, rfl⟩

theorem Succeeds.bind (hx : Succeeds x) (hf : ∀ a, Succeeds (f a)) : Succeeds (x >>= f) := by
  intro session
  obtain ⟨a, ha⟩ := hx session
  rw [on_bind]
  generalize x.on session = ending at ha
  obtain ⟨outcome, later⟩ := ending
  obtain rfl : outcome = .ok a := ha
  exact hf a later

theorem succeeds_ofExcept_bind {a : α} {x : Except Fault α} (hx : x = .ok a) (hf : Succeeds (f a)) :
    Succeeds (ofExcept x >>= f) := by
  subst hx
  exact hf

theorem succeeds_settle {outcome : Except DiskError α}
    (h : ∀ e, outcome = .error e → e.cause ≠ .unusable) : Succeeds (settle outcome) := by
  cases outcome with
  | ok a => exact succeeds_pure _
  | error e =>
    have hfault : e.fault? = none := if_neg (h e rfl)
    rw [settle, hfault]
    exact succeeds_pure _

theorem succeeds_ofStoring {x : DiskChange α} (h : x.Sane) : Succeeds (ofStoring x) := fun session =>
  succeeds_settle (h session.disk) { session with disk := (x.on session.disk).2 }

end Setup

namespace Session

variable {c : Config}

/-- A configuration whose settings can be read, with a location of the log file, if there is to be
one, that can be looked for. -/
structure Readable (s : Surroundings) (c : Config) : Prop where
  maxBytes : ∃ n, Whole.ofJson c.maxBytes = .ok n
  backupCount : ∃ n, Whole.ofJson c.backupCount = .ok n
  consoleFormat : ∃ t, Template.ofJson c.consoleFormat = .ok t
  fileFormat : ∃ t, Template.ofJson c.fileFormat = .ok t
  location : ∃ location?, c.location? = .ok location? ∧
    ∀ location ∈ location?, '\x00' ∉ location.toList
  directory : '\x00' ∉ s.directory.toList

theorem succeeds_openLog (h : Readable s c) {location : String}
    (hlocation : '\x00' ∉ location.toList) : (openLog s c location).Succeeds := by
  obtain ⟨maxBytes, hmaxBytes⟩ := h.maxBytes
  obtain ⟨backupCount, hbackupCount⟩ := h.backupCount
  refine .bind (Setup.succeeds_ofStoring (Storing.sane_makeParents h.directory hlocation))
    fun parents => ?_
  cases parents with
  | error e => exact Setup.succeeds_pure _
  | ok _ =>
    refine Setup.succeeds_ofExcept_bind hmaxBytes (Setup.succeeds_ofExcept_bind hbackupCount ?_)
    refine .bind (Setup.succeeds_ofStoring (LogFile.sane_create h.directory hlocation))
      fun created => ?_
    cases created <;> exact Setup.succeeds_pure _

theorem succeeds_fileSinks (h : Readable s c) : (fileSinks s c).Succeeds := by
  obtain ⟨location?, hgiven, hlocation⟩ := h.location
  obtain ⟨template, htemplate⟩ := h.fileFormat
  refine Setup.succeeds_ofExcept_bind hgiven ?_
  cases location? with
  | none => exact Setup.succeeds_pure _
  | some location =>
    refine .bind (succeeds_openLog h (hlocation location rfl)) fun opened => ?_
    cases opened with
    | ok file => exact Setup.succeeds_ofExcept_bind htemplate (Setup.succeeds_pure _)
    | error e => exact .bind (fun _ => ⟨(), rfl⟩) fun _ => Setup.succeeds_pure _

theorem succeeds_sinksOf (h : Readable s c) : (sinksOf s c).Succeeds := by
  have hconsole : ∃ sinks, consoleSinks c = .ok sinks := by
    obtain ⟨template, htemplate⟩ := h.consoleFormat
    unfold consoleSinks
    rw [htemplate]
    split
    · exact ⟨_, rfl⟩
    · exact ⟨_, rfl⟩
  obtain ⟨console, hconsole⟩ := hconsole
  exact Setup.succeeds_ofExcept_bind hconsole
    (.bind (succeeds_fileSinks h) fun _ => Setup.succeeds_pure _)

/-- Setting up logging by a configuration that can be read succeeds. -/
theorem succeeds_configure (h : Readable s c) (force : Bool) : (configure s c force).Succeeds := by
  intro session
  rw [on_configure]
  split
  · exact ⟨(), rfl⟩
  · refine Setup.Succeeds.bind (succeeds_sinksOf h) (fun sinks => ?_) _
    split
    · exact Setup.succeeds_pure _
    · exact fun _ => ⟨(), rfl⟩

end Session

end ApiTypings.Logging
