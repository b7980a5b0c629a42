import ApiTypings.Logging.Session
import ApiTypings.Proofs.Success

/-!
What is attached to the gate of a logging session.

Nothing is attached, or one handler and one listener that belong together. Taking away what is
attached leaves nothing, since the listener at work is the one that is recorded, and attaching to
nothing gives one of each. Opening log files, writing records and moving files concern the sinks and
the disk only, and the sinks of a configuration have the level that it gives to the gate.
-/

namespace ApiTypings.Logging

namespace Wiring

variable {w : Wiring} {level : Int} {l : Listener} {sinks : List Sink}

/-- One handler is at the gate, and the listener behind it is recorded, at work and the only one. It
has sinks, and they let through what the gate lets through. -/
structure Attached (w : Wiring) (level : Int) (l : Listener) : Prop where
  handlers : w.handlers = [l.queue]
  listeners : w.listeners = [l]
  recorded : w.recorded = some l.queue
  sinks : l.sinks ≠ []
  levels : ∀ sink ∈ l.sinks, sink.level = level

/-- No handler is at the gate, and no listener is recorded or at work. -/
structure Detached (w : Wiring) : Prop where
  handlers : w.handlers = []
  listeners : w.listeners = []
  recorded : w.recorded = none

/-- Nothing is attached, or a handler and its listener are and logging counts as configured. -/
def Sound (w : Wiring) (level : Int) : Prop :=
  w.Detached ∨ w.configured = true ∧ ∃ l, w.Attached level l

/-- Whether the mark that logging is configured says what it should. -/
def Truthful (w : Wiring) (level : Int) : Prop := w.configured = true ↔ ∃ l, w.Attached level l

theorem detached_bare : bare.Detached := ⟨rfl, rfl, rfl⟩

theorem Detached.not_attached (h : w.Detached) : ¬∃ l, w.Attached level l := by
  rintro ⟨l, hl⟩
  have hhandlers : [l.queue] = [] := hl.handlers.symm.trans h.handlers
  exact List.cons_ne_nil _ _ hhandlers

theorem Sound.length_handlers_le (h : w.Sound level) : w.handlers.length ≤ 1 := by
  rcases h with h | ⟨-, l, hl⟩
  · rw [h.handlers]
    exact Nat.zero_le 1
  · rw [hl.handlers]
    exact Nat.le_refl 1

theorem Sound.detach (h : w.Sound level) : w.detach.Detached := by
  refine ⟨rfl, ?_, rfl⟩
  rcases h with h | ⟨-, l, hl⟩
  · simp [Wiring.detach, h.listeners]
  · simp [Wiring.detach, hl.listeners, hl.recorded]

theorem Detached.attach (h : w.Detached) (hsinks : sinks ≠ [])
    (hlevels : ∀ sink ∈ sinks, sink.level = level) :
    (w.attach sinks).Attached level ⟨w.queues, sinks⟩ where
  handlers := by simp [Wiring.attach, h.handlers]
  listeners := by simp [Wiring.attach, h.listeners]
  recorded := rfl
  sinks := hsinks
  levels := hlevels

/-- A record from the gate gets to the sinks of the listener that is attached, once to each. -/
theorem Attached.sinks_eq (h : w.Attached level l) : w.sinks = l.sinks := by
  simp [Wiring.sinks, h.handlers, h.listeners]

theorem Sound.mapSinks (h : w.Sound level) {f : Sink → Sink}
    (hf : ∀ sink, (f sink).level = sink.level) : (w.mapSinks f).Sound level := by
  rcases h with h | ⟨hconfigured, l, hl⟩
  · exact .inl ⟨h.handlers, by simp [Wiring.mapSinks, h.listeners], h.recorded⟩
  · refine .inr ⟨hconfigured, ⟨l.queue, l.sinks.map f⟩, hl.handlers, ?_, hl.recorded, ?_, ?_⟩
    · simp [Wiring.mapSinks, hl.listeners]
    · simpa using hl.sinks
    · intro sink hsink
      obtain ⟨former, hformer, rfl⟩ := List.mem_map.1 hsink
      rw [hf, hl.levels former hformer]

/-- The mark can go wrong in one way only. -/
theorem Sound.truthful_iff (h : w.Sound level) :
    w.Truthful level ↔ (w.configured = true → w.handlers ≠ []) := by
  rcases h with h | ⟨hconfigured, l, hl⟩
  · have hnone : ¬∃ l, w.Attached level l := h.not_attached
    exact ⟨fun ht hc => absurd (ht.1 hc) hnone, fun hc =>
      ⟨fun hconfigured => absurd h.handlers (hc hconfigured), fun hsome => absurd hsome hnone⟩⟩
  · have hhandlers : w.handlers ≠ [] := hl.handlers ▸ List.cons_ne_nil l.queue []
    exact ⟨fun _ _ => hhandlers, fun _ => ⟨fun _ => ⟨l, hl⟩, fun _ => hconfigured⟩⟩

end Wiring

/-! ### What leaves the gate alone -/

/-- Two sessions with the same gate: its level and what is attached to it. -/
structure Session.SameGate (a b : Session) : Prop where
  level : a.level = b.level
  wiring : a.wiring = b.wiring

theorem Session.SameGate.refl (session : Session) : session.SameGate session := ⟨rfl, rfl⟩

theorem Session.SameGate.trans {a b c : Session} (hab : a.SameGate b) (hbc : b.SameGate c) :
    a.SameGate c := ⟨hab.level.trans hbc.level, hab.wiring.trans hbc.wiring⟩

namespace Setup

variable {α β : Type} {x : Setup α} {f : α → Setup β}

/-- A change of a session that does not concern its gate. -/
def KeepsGate (x : Setup α) : Prop := ∀ session, (x.on session).2.SameGate session

theorem on_bind (x : Setup α) (f : α → Setup β) (session : Session) :
    (x >>= f).on session = match x.on session with
      | (.ok a, later) => (f a).on later
      | (.error fault, later) => (.error fault, later) := by
  show ExceptT.bindCont f (x.on session).1 (x.on session).2 = _
  cases x.on session with
  | mk outcome later => cases outcome <;> rfl

theorem ok_of_bind {b : β} {session : Session} (h : ((x >>= f).on session).1 = .ok b) :
    ∃ a, (x.on session).1 = .ok a ∧ ((f a).on (x.on session).2).1 = .ok b := by
  rw [on_bind] at h
  generalize x.on session = ending at h
  obtain ⟨outcome, later⟩ := ending
  cases outcome with
  | error fault => cases h
  | ok a => exact ⟨a, rfl, h⟩

theorem keepsGate_pure (a : α) : KeepsGate (pure a : Setup α) := fun session => .refl session

theorem keepsGate_ofExcept (x : Except Fault α) : KeepsGate (ofExcept x) :=
  fun session => .refl session

theorem keepsGate_modify {change : Session → Session}
    (h : ∀ session, (change session).SameGate session) :
    KeepsGate (modify change : Setup Unit) := h

theorem KeepsGate.bind (hx : KeepsGate x) (hf : ∀ a, KeepsGate (f a)) : KeepsGate (x >>= f) := by
  intro session
  have hfirst : (x.on session).2.SameGate session := hx session
  rw [on_bind]
  generalize x.on session = ending at hfirst
  obtain ⟨outcome, later⟩ := ending
  cases outcome with
  | error fault => exact hfirst
  | ok a => exact (hf a later).trans hfirst

theorem keepsGate_settle (outcome : Except DiskError α) : KeepsGate (settle outcome) := by
  cases outcome with
  | ok a => exact keepsGate_pure _
  | error e =>
    refine .bind ?_ fun _ => keepsGate_pure _
    cases e.fault? with
    | none => exact keepsGate_pure _
    | some fault => exact fun session => .refl session

theorem keepsGate_ofStoring (x : DiskChange α) : KeepsGate (ofStoring x) := fun session =>
  (keepsGate_settle (x.on session.disk).1 { session with disk := (x.on session.disk).2 }).trans
    ⟨rfl, rfl⟩

end Setup

namespace Session

variable (s : Surroundings) (c : Config)

theorem keepsGate_openLog (location : String) : (openLog s c location).KeepsGate := by
  refine .bind (Setup.keepsGate_ofStoring _) fun parents => ?_
  cases parents with
  | error e => exact Setup.keepsGate_pure _
  | ok _ =>
    refine .bind (Setup.keepsGate_ofExcept _) fun maxBytes => ?_
    refine .bind (Setup.keepsGate_ofExcept _) fun backupCount => ?_
    refine .bind (Setup.keepsGate_ofStoring _) fun created => ?_
    cases created <;> exact Setup.keepsGate_pure _

theorem keepsGate_fileSinks : (fileSinks s c).KeepsGate := by
  refine .bind (Setup.keepsGate_ofExcept _) fun location => ?_
  cases location with
  | none => exact Setup.keepsGate_pure _
  | some location =>
    refine .bind (keepsGate_openLog s c location) fun opened => ?_
    cases opened with
    | ok file => exact .bind (Setup.keepsGate_ofExcept _) fun _ => Setup.keepsGate_pure _
    | error e =>
      exact .bind (Setup.keepsGate_modify fun _ => ⟨rfl, rfl⟩) fun _ => Setup.keepsGate_pure _

/-- The sinks are made before anything is attached. -/
theorem keepsGate_sinksOf : (sinksOf s c).KeepsGate :=
  .bind (Setup.keepsGate_ofExcept _) fun _ =>
    .bind (keepsGate_fileSinks s c) fun _ => Setup.keepsGate_pure _

theorem sameGate_write (r : Record) (session : Session) (sink : Sink) :
    (session.write r sink).SameGate session := by
  unfold write
  split
  · exact .refl session
  · dsimp only
    split <;> exact ⟨rfl, rfl⟩

theorem sameGate_log (session : Session) (r : Record) : (session.log r).SameGate session := by
  have hwrites (sinks : List Sink) (session : Session) :
      (sinks.foldl (write r) session).SameGate session := by
    induction sinks generalizing session with
    | nil => exact .refl session
    | cons sink rest ih => exact (ih (session.write r sink)).trans (sameGate_write r session sink)
  unfold log resort
  split
  · exact .refl session
  · split
    · split <;> exact ⟨rfl, rfl⟩
    · exact hwrites session.wiring.sinks session

/-! ### The level of the sinks -/

variable {s c} {sinks : List Sink} {sink : Sink} {session : Session}

theorem level_of_consoleSinks (h : consoleSinks c = .ok sinks) (hsink : sink ∈ sinks) :
    sink.level = Config.levelValue c.level := by
  unfold consoleSinks at h
  split at h
  · obtain ⟨template, -, h⟩ := Success.bind_eq_ok.1 h
    obtain rfl := Except.ok.inj h
    rw [List.mem_singleton.1 hsink]
  · obtain rfl := Except.ok.inj h
    exact absurd hsink List.not_mem_nil

theorem level_of_fileSinks (h : ((fileSinks s c).on session).1 = .ok sinks) (hsink : sink ∈ sinks) :
    sink.level = Config.levelValue c.level := by
  obtain ⟨location, -, h⟩ := Setup.ok_of_bind h
  cases location with
  | none =>
    obtain rfl := Except.ok.inj h
    exact absurd hsink List.not_mem_nil
  | some location =>
    obtain ⟨opened, -, h⟩ := Setup.ok_of_bind h
    cases opened with
    | ok file =>
      obtain ⟨template, -, h⟩ := Setup.ok_of_bind h
      obtain rfl := Except.ok.inj h
      rw [List.mem_singleton.1 hsink]
    | error e =>
      obtain rfl := Except.ok.inj h
      exact absurd hsink List.not_mem_nil

/-- Every sink of a configuration has its level. -/
theorem level_of_sinksOf (h : ((sinksOf s c).on session).1 = .ok sinks) (hsink : sink ∈ sinks) :
    sink.level = Config.levelValue c.level := by
  obtain ⟨console, hconsole, h⟩ := Setup.ok_of_bind h
  obtain ⟨files, hfiles, h⟩ := Setup.ok_of_bind h
  obtain rfl := Except.ok.inj h
  rcases List.mem_append.1 hsink with hsink | hsink
  · exact level_of_consoleSinks hconsole hsink
  · exact level_of_fileSinks hfiles hsink

end Session

end ApiTypings.Logging
