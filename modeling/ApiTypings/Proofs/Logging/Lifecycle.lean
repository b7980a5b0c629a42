import ApiTypings.Proofs.Logging.Wiring

/-!
The life of a logging session.

A session is configured and shut down any number of times, and records are sent, files are moved and
the disk changes in between. Each step leaves a sound session sound, and so nothing is attached at
any time or one handler with its listener, in which case the mark is set that logging is configured.

The mark may be set without anything being attached, though, and this can be traced to one kind of
step: a forced configuration takes away what is attached before it is known whether there will be
any sinks, and leaves the mark as it is. After such a lapse, configurations that are not forced are
ignored, and records go nowhere.
-/

namespace ApiTypings.Logging.Session

/-- What a session goes through. -/
inductive Step where
  | configure (s : Surroundings) (c : Config) (force : Bool)
  | shutdown
  | log (r : Record)
  | displace (place : Place)
  /-- The disk is changed by others. -/
  | disturb (disk : Disk)

/-- The session after a step. A configuration that ends in a fault leaves the session as far as it
came. -/
def perform (session : Session) : Step → Session
  | .configure s c force => ((configure s c force).on session).2
  | .shutdown => session.shutdown
  | .log r => session.log r
  | .displace place => session.displace place
  | .disturb disk => { session with disk := disk }

def performAll (session : Session) (steps : List Step) : Session := steps.foldl perform session

/-- Whether a step is a lapse: a forced configuration of a configured session that leaves no
handler. -/
def lapses (session : Session) : Step → Bool
  | .configure s c force =>
    force && session.wiring.configured &&
      (session.perform (.configure s c force)).wiring.handlers.isEmpty
  | _ => false

/-- Whether no step of a session is a lapse. -/
def steady (session : Session) : List Step → Bool
  | [] => true
  | step :: rest => !session.lapses step && (session.perform step).steady rest

/-- Nothing is attached to the gate, or a handler and its listener are and logging counts as
configured. -/
def Sound (session : Session) : Prop := session.wiring.Sound session.level

/-- The mark that logging is configured is set if and only if one handler is at the gate, and its
listener is recorded and at work. -/
def Truthful (session : Session) : Prop := session.wiring.Truthful session.level

/-- Every record that passes the gate is written to the sinks of a listener, of which there are
some, and none of which is closed to the record. -/
structure Delivers (session : Session) (l : Listener) : Prop where
  attached : session.wiring.Attached session.level l
  writes : ∀ r, session.level ≤ r.level → session.log r = l.sinks.foldl (write r) session

variable {session : Session} {s : Surroundings} {c : Config} {force : Bool} {sinks : List Sink}

theorem Sound.of_sameGate {later : Session} (h : session.Sound) (hgate : later.SameGate session) :
    later.Sound := by
  unfold Sound at h ⊢
  rwa [hgate.level, hgate.wiring]

theorem Truthful.of_sameGate {later : Session} (h : session.Truthful)
    (hgate : later.SameGate session) : later.Truthful := by
  unfold Truthful at h ⊢
  rwa [hgate.level, hgate.wiring]

/-- A record that passes the gate goes through the handler to the listener. -/
theorem delivers_of_attached {l : Listener} (h : session.wiring.Attached session.level l) :
    session.Delivers l := by
  refine ⟨h, fun r hlevel => ?_⟩
  have hhandlers : ¬session.wiring.handlers.isEmpty = true := by simp [h.handlers]
  rw [log, if_neg (Int.not_lt.2 hlevel), if_neg hhandlers, h.sinks_eq]

/-! ### One configuration -/

theorem on_configure (session : Session) (s : Surroundings) (c : Config) (force : Bool) :
    (configure s c force).on session =
      if session.wiring.configured && !force then (.ok (), session)
      else (sinksOf s c >>= fun sinks =>
        if sinks.isEmpty then pure () else modify (attach sinks)).on (session.reset c) := by
  show (if session.wiring.configured && !force then pure () else do
    modify (reset c)
    let sinks ← sinksOf s c
    if sinks.isEmpty then pure () else modify (attach sinks) : Setup Unit).on session = _
  split <;> rfl

/-- A configuration that is not forced leaves a configured session as it is. -/
theorem perform_configured (h : (session.wiring.configured && !force) = true) :
    session.perform (.configure s c force) = session := by
  rw [perform, on_configure, if_pos h]

/-- A configuration that is carried out takes away what is attached and sets the level. It attaches
the sinks it has made if there are some, and nothing if there are none or making them ends in a
fault. -/
theorem sameGate_configure (s : Surroundings) (c : Config)
    (h : (session.wiring.configured && !force) = false) :
    (session.perform (.configure s c force)).SameGate
      (match ((sinksOf s c).on (session.reset c)).1 with
        | .ok sinks => if sinks.isEmpty then session.reset c else (session.reset c).attach sinks
        | .error _ => session.reset c) := by
  have hbuilt : ((sinksOf s c).on (session.reset c)).2.SameGate (session.reset c) :=
    keepsGate_sinksOf s c (session.reset c)
  rw [perform, on_configure, h, if_neg Bool.false_ne_true, Setup.on_bind]
  generalize (sinksOf s c).on (session.reset c) = ending at hbuilt
  obtain ⟨outcome, built⟩ := ending
  cases outcome with
  | error fault => exact hbuilt
  | ok sinks =>
    cases sinks with
    | nil => exact hbuilt
    | cons sink rest => exact ⟨hbuilt.level, congrArg (·.attach (sink :: rest)) hbuilt.wiring⟩

/-- Sinks that a configuration makes can be attached once the session is reset. -/
theorem attached_of_sinksOf (h : session.Sound)
    (hyields : ((sinksOf s c).on (session.reset c)).1 = .ok sinks) (hsinks : sinks ≠ []) :
    ((session.reset c).attach sinks).wiring.Attached ((session.reset c).attach sinks).level
      ⟨session.wiring.queues, sinks⟩ :=
  h.detach.attach hsinks fun _ hsink => level_of_sinksOf hyields hsink

/-- What a configuration may do: nothing, or take away what is attached, or replace it. -/
theorem configure_cases (h : session.Sound) (s : Surroundings) (c : Config) (force : Bool) :
    ((session.wiring.configured && !force) = true ∧
        session.perform (.configure s c force) = session) ∨
      ((session.wiring.configured && !force) = false ∧
        (session.perform (.configure s c force)).SameGate (session.reset c)) ∨
      (session.perform (.configure s c force)).wiring.configured = true ∧
        ∃ l, (session.perform (.configure s c force)).wiring.Attached
          (session.perform (.configure s c force)).level l := by
  cases hskip : session.wiring.configured && !force with
  | true => exact .inl ⟨rfl, perform_configured hskip⟩
  | false =>
    have hgate := sameGate_configure s c hskip
    split at hgate
    next sinks hyields =>
      split at hgate
      next => exact .inr (.inl ⟨rfl, hgate⟩)
      next hsinks =>
        have hattached := attached_of_sinksOf h hyields (mt List.isEmpty_iff.2 hsinks)
        rw [hgate.wiring, hgate.level]
        exact .inr (.inr ⟨rfl, _, hattached⟩)
    next => exact .inr (.inl ⟨rfl, hgate⟩)

/-- After a configuration that yields sinks records get to them, or to those of an earlier one if
this one is ignored. -/
theorem configure_delivers (hsound : session.Sound) (h : session.Truthful)
    (hyields : ((sinksOf s c).on (session.reset c)).1 = .ok sinks) (hsinks : sinks ≠ [])
    (force : Bool) :
    ∃ l, (session.perform (.configure s c force)).Delivers l ∧
      ((session.wiring.configured && !force) = false → l.sinks = sinks) := by
  cases hskip : session.wiring.configured && !force with
  | true =>
    obtain ⟨l, hl⟩ := h.1 (Bool.and_eq_true_iff.1 hskip).1
    rw [perform_configured hskip]
    exact ⟨l, delivers_of_attached hl, fun hfalse => absurd hfalse.symm Bool.false_ne_true⟩
  | false =>
    have hsome : ¬sinks.isEmpty = true := mt List.isEmpty_iff.1 hsinks
    have hattached := attached_of_sinksOf hsound hyields hsinks
    have hgate := sameGate_configure s c hskip
    simp only [hyields, if_neg hsome] at hgate
    rw [← hgate.wiring, ← hgate.level] at hattached
    exact ⟨_, delivers_of_attached hattached, fun _ => rfl⟩

/-! ### One step -/

/-- Moving files does not change what the sinks let through. -/
theorem sound_displace (h : session.Sound) (place : Place) : (session.displace place).Sound := by
  refine Wiring.Sound.mapSinks h fun sink => ?_
  split
  · split <;> rfl
  · rfl

/-- Every step leaves a sound session sound. -/
theorem sound_perform (h : session.Sound) (step : Step) : (session.perform step).Sound := by
  cases step with
  | configure s c force =>
    rcases configure_cases h s c force with ⟨-, hsame⟩ | ⟨-, hreset⟩ | hattached
    · rwa [hsame]
    · have hdetached : (session.reset c).Sound := .inl h.detach
      exact hdetached.of_sameGate hreset
    · exact .inr hattached
  | shutdown => exact .inl ⟨rfl, h.detach.listeners, rfl⟩
  | log r => exact h.of_sameGate (sameGate_log session r)
  | displace place => exact sound_displace h place
  | disturb disk => exact h

/-- A step that is no lapse leaves the mark truthful. -/
theorem truthful_perform (hsound : session.Sound) (h : session.Truthful) {step : Step}
    (hstep : session.lapses step = false) : (session.perform step).Truthful := by
  cases step with
  | configure s c force =>
    rcases configure_cases hsound s c force with ⟨-, hsame⟩ | ⟨hcarried, hreset⟩ | ⟨hmarked, hl⟩
    · rwa [hsame]
    · -- carried out without being a lapse, so that the session was not configured
      refine (sound_perform hsound _).truthful_iff.2 fun hmarked => ?_
      have hconfigured : session.wiring.configured = true := by rwa [hreset.wiring] at hmarked
      rw [lapses, hreset.wiring, hconfigured] at hstep
      rw [hconfigured] at hcarried
      cases force with
      | true => exact Bool.noConfusion (show true = false from hstep)
      | false => exact Bool.noConfusion (show true = false from hcarried)
    · exact ⟨fun _ => hl, fun _ => hmarked⟩
  | shutdown =>
    exact (sound_perform hsound .shutdown).truthful_iff.2 fun hmarked =>
      absurd hmarked Bool.false_ne_true
  | log r => exact h.of_sameGate (sameGate_log session r)
  | displace place => exact (sound_displace hsound place).truthful_iff.2 (hsound.truthful_iff.1 h)
  | disturb disk => exact h

/-- A lapse leaves the mark set and nothing attached. -/
theorem not_truthful_of_lapses (hsound : session.Sound) {step : Step}
    (h : session.lapses step = true) : ¬(session.perform step).Truthful := by
  cases step with
  | configure s c force =>
    simp only [lapses, Bool.and_eq_true, List.isEmpty_iff] at h
    obtain ⟨⟨rfl, hconfigured⟩, hhandlers⟩ := h
    intro htruthful
    rcases configure_cases hsound s c true with ⟨hskip, -⟩ | ⟨-, hreset⟩ | ⟨-, l, hl⟩
    · rw [Bool.not_true, Bool.and_false] at hskip
      exact Bool.false_ne_true hskip
    · have hmarked : (session.perform (.configure s c true)).wiring.configured = true :=
        hreset.wiring ▸ hconfigured
      exact (sound_perform hsound _).truthful_iff.1 htruthful hmarked hhandlers
    · exact List.cons_ne_nil _ _ (hl.handlers.symm.trans hhandlers)
  | _ => exact absurd h Bool.false_ne_true

/-! ### A whole session -/

theorem sound_fresh (disk : Disk) : (fresh disk).Sound := .inl Wiring.detached_bare

theorem truthful_fresh (disk : Disk) : (fresh disk).Truthful :=
  (sound_fresh disk).truthful_iff.2 fun hmarked => absurd hmarked Bool.false_ne_true

theorem sound_performAll (h : session.Sound) (steps : List Step) :
    (session.performAll steps).Sound := by
  induction steps generalizing session with
  | nil => exact h
  | cons step rest ih => exact ih (sound_perform h step)

/-- The mark is truthful at every time if and only if no step is a lapse. -/
theorem truthful_throughout_iff (hsound : session.Sound) (h : session.Truthful)
    (steps : List Step) :
    (∀ before, before <+: steps → (session.performAll before).Truthful) ↔
      session.steady steps = true := by
  induction steps generalizing session with
  | nil =>
    refine ⟨fun _ => rfl, fun _ before hbefore => ?_⟩
    obtain rfl := List.prefix_nil.1 hbefore
    exact h
  | cons step rest ih =>
    cases hstep : session.lapses step with
    | true =>
      have hunsteady : session.steady (step :: rest) = false := by simp [steady, hstep]
      rw [hunsteady]
      refine ⟨fun hall => ?_, fun hfalse => absurd hfalse Bool.false_ne_true⟩
      have hfirst : [step] <+: step :: rest := ⟨rest, rfl⟩
      exact absurd (hall [step] hfirst) (not_truthful_of_lapses hsound hstep)
    | false =>
      have hrest : session.steady (step :: rest) = (session.perform step).steady rest := by
        simp [steady, hstep]
      rw [hrest, ← ih (sound_perform hsound step) (truthful_perform hsound h hstep)]
      constructor
      · intro hall before hbefore
        exact hall (step :: before) (List.cons_prefix_cons.2 ⟨rfl, hbefore⟩)
      · intro hall before hbefore
        cases before with
        | nil => exact h
        | cons first more =>
          obtain ⟨rfl, hmore⟩ := List.cons_prefix_cons.1 hbefore
          exact hall more hmore

/-- At any time in the life of a session nothing is attached, or one handler with its listener. The
mark that logging is configured is truthful all the time if and only if no step is a lapse, and then
a configuration that yields sinks has records delivered. -/
theorem session_lifecycle (disk : Disk) (steps : List Step) :
    let session := (fresh disk).performAll steps
    session.Sound ∧ session.wiring.handlers.length ≤ 1 ∧
      ((∀ before, before <+: steps → ((fresh disk).performAll before).Truthful) ↔
        (fresh disk).steady steps = true) ∧
      ((fresh disk).steady steps = true → ∀ s c force sinks,
        ((sinksOf s c).on (session.reset c)).1 = .ok sinks → sinks ≠ [] →
          ∃ l, (session.perform (.configure s c force)).Delivers l ∧
            ((session.wiring.configured && !force) = false → l.sinks = sinks)) := by
  intro session
  have hsound : session.Sound := sound_performAll (sound_fresh disk) steps
  have hthroughout := truthful_throughout_iff (sound_fresh disk) (truthful_fresh disk) steps
  refine ⟨hsound, hsound.length_handlers_le, hthroughout, ?_⟩
  intro hsteady s c force sinks hyields hsinks
  have htruthful : session.Truthful := hthroughout.2 hsteady steps (List.prefix_refl steps)
  exact configure_delivers hsound htruthful hyields hsinks force

/-- Surroundings without any variables. -/
def plain : Surroundings := ⟨"/work", [], [], ""⟩

/-- The standard configuration without its console. -/
def silent : Config := { Config.standard with console := .bool false }

/-- The sink of the standard configuration. -/
def standardSink : Sink :=
  ⟨.console, 20, (Template.ofJson Config.standard.consoleFormat).toOption.getD []⟩

/-- Logging is configured, configured anew by force, shut down and configured without effect. -/
def forcedSteps : List Step :=
  [.configure plain silent true, .configure plain .standard false,
    .configure plain (.commandLine true .null) true, .shutdown, .configure plain silent false]

/-- A session without a lapse, in which the next configuration gets its own sink. -/
theorem session_lifecycle_forcedSession :
    let session := (fresh Disk.empty).performAll forcedSteps
    session.Truthful ∧ ∃ l, (session.perform (.configure plain .standard false)).Delivers l ∧
      l.sinks = [standardSink] := by
  intro session
  have hsteady : (fresh Disk.empty).steady forcedSteps = true := by decide +kernel
  have hyields : ((sinksOf plain .standard).on (session.reset .standard)).1 =
      .ok [standardSink] := rfl
  have hcarried : (session.wiring.configured && !false) = false := by decide +kernel
  obtain ⟨-, -, hthroughout, hdelivers⟩ := session_lifecycle Disk.empty forcedSteps
  obtain ⟨l, hl, hsinks⟩ := hdelivers hsteady plain .standard false [standardSink] hyields
    (List.cons_ne_nil _ _)
  exact ⟨hthroughout.2 hsteady _ (List.prefix_refl _), l, hl, hsinks hcarried⟩

/-- A forced configuration without sinks leaves the mark set. The next configuration would yield the
console, but is ignored, and a record that passes the gate gets nowhere. -/
theorem records_lost_after_lapse :
    let lapsed := (fresh Disk.empty).performAll
      [.configure plain .standard false, .configure plain silent true]
    let session := lapsed.perform (.configure plain .standard false)
    let r : Record := ⟨20, "tidocgen", "Generation started.", ⟨2024, 1, 1, 0, 0, 0, 0⟩⟩
    lapsed.wiring.configured = true ∧ lapsed.wiring.handlers = [] ∧
      ((sinksOf plain .standard).on (lapsed.reset .standard)).1 = .ok [standardSink] ∧
      session.wiring.handlers = [] ∧ session.level ≤ r.level ∧ (session.log r).console = "" := by
  refine ⟨?_, ?_, rfl, ?_, ?_, ?_⟩ <;> decide +kernel

end ApiTypings.Logging.Session
