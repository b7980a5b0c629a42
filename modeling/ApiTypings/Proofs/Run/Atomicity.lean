import ApiTypings.Proofs.Storage.Disk
import ApiTypings.Run.Generate

/-!
A run is all or nothing.

The only step of a run that touches files stores the generated text, and after it nothing can fail.
So on every orderly file system, a run that succeeds and names an output file has stored its text
there, and a run that ends in any other way, be it with a fault, leaves all files as they were.
Nothing but the draft of the text may be left by it, and this only if the file system refuses to
remove the draft.
-/

namespace ApiTypings

namespace Job

variable {σ ε α β : Type} {d : σ}

/-- The outcome of a job and the disk that it leaves. -/
def leaves (x : Job σ α) (d : σ) : Except Fault α × σ := ((x.on d).outcome, (x.on d).disk)

@[simp] theorem leaves_pure (a : α) (d : σ) : (pure a : Job σ α).leaves d = (.ok a, d) := rfl

@[simp] theorem leaves_throw (e : Fault) (d : σ) :
    (throw e : Job σ α).leaves d = (.error e, d) := rfl

theorem leaves_bind (x : Job σ α) (f : α → Job σ β) (d : σ) :
    (x >>= f).leaves d = match x.leaves d with
      | (.ok a, d') => (f a).leaves d'
      | (.error e, d') => (.error e, d') := by
  change ((ExceptT.bindCont f (x.on d).outcome (x.on d).disk).value.1,
    (ExceptT.bindCont f (x.on d).outcome (x.on d).disk).value.2) = _
  rw [leaves]
  rcases (x.on d).outcome with _ | a <;> rfl

@[simp] theorem leaves_tell (level : Level) (topic : Topic) (message : String) (d : σ) :
    (tell level topic message).leaves d = (.ok (), d) := rfl

@[simp] theorem leaves_ofExcept (x : Except Fault α) (d : σ) :
    (ofExcept x).leaves d = (x, d) := rfl

@[simp] theorem leaves_ofReport (x : Report α) (d : σ) :
    (ofReport x).leaves d = (.ok x.outcome, d) := rfl

@[simp] theorem leaves_ofStoring (x : Storing σ ε α) (d : σ) :
    (ofStoring x).leaves d = (.ok (x.on d).1, (x.on d).2) := rfl

@[simp] theorem leaves_disk (d : σ) : (disk : Job σ σ).leaves d = (.ok d, d) := rfl

/-- A sequence of jobs without any effect but on the journal has none either. -/
theorem leaves_forM {f : α → Job σ PUnit} (hf : ∀ a d, (f a).leaves d = (.ok (), d)) (as : List α)
    (d : σ) : (as.forM f).leaves d = (.ok (), d) := by
  induction as with
  | nil => rfl
  | cons a rest ih =>
      rw [List.forM_eq_forM, List.forM_cons, leaves_bind, hf]
      exact ih

end Job

namespace Run

variable {σ ε : Type} {s : Surroundings} {settings : Settings} {given : Json} {d : σ}

theorem leaves_checkedSettings (s : Surroundings) (given : Json) (d : σ) :
    (checkedSettings s given).leaves d = (.ok (Settings.checkLenient s.directory given).1, d) := by
  rw [checkedSettings]
  generalize Settings.checkLenient s.directory given = checked
  obtain ⟨settings, warnings⟩ := checked
  have hnoted := Job.leaves_forM (f := Job.tell .warning .settings) (fun _ _ => rfl) warnings d
  have hwarned := Job.leaves_forM
    (f := fun warning => Job.tell .warning .run ("Configuration Warning: " ++ warning))
    (fun _ _ => rfl) warnings d
  cases given <;> simp only [Job.leaves_bind, Job.leaves_pure, hnoted, hwarned]

variable [FileSystem σ ε] {v : FileView σ}

theorem leaves_loadDescription (s : Surroundings) (settings : Settings) (d : σ) :
    (∃ description, Description.load d s.directory settings.inputPath = .ok description ∧
        (loadDescription s settings).leaves d = (.ok (.ok description), d)) ∨
      (∃ e, (loadDescription s settings).leaves d = (.ok (.error e), d)) ∨
      ∃ fault, (loadDescription s settings).leaves d = (.error fault, d) := by
  rw [loadDescription, Job.leaves_bind, Job.leaves_disk]
  dsimp only
  cases Description.load d s.directory settings.inputPath with
  | ok description => exact .inl ⟨description, rfl, rfl⟩
  | error e =>
    cases hfault : e.fault? with
    | some fault =>
      refine .inr (.inr ⟨fault, ?_⟩)
      simp [hfault]
    | none =>
      refine .inr (.inl ⟨e, ?_⟩)
      simp [hfault]

/-! ### Where a run stores its text -/

/-- The location of the output file, in standard form, if settings name one that can be resolved. -/
def destination? (s : Surroundings) (settings : Settings) : Option String :=
  if settings.outputPath = "" then none
  else (Location.resolve s settings.outputPath settings.outputPath).toOption

theorem spells_of_destination {location : String} (h : destination? s settings = some location) :
    Location.Spells location (Location.fold location) := by
  unfold destination? at h
  split at h
  · cases h
  · cases hresolve : Location.resolve s settings.outputPath settings.outputPath with
    | error fault => simp [hresolve, Except.toOption] at h
    | ok found =>
      obtain rfl : found = location := by simpa [hresolve, Except.toOption] using h
      exact Location.spells_of_resolve hresolve

/-- There is no file where the draft of the output file is written. -/
def DraftFree (v : FileView σ) (s : Surroundings) (settings : Settings) (d : σ) : Prop :=
  ∀ location, destination? s settings = some location →
    v.file? d (v.place (Artifact.draft location)) = none

/-- All files are as they were, but for a draft beside the destination, if there is one, that could
not be removed. -/
def Spared (v : FileView σ) (s : Surroundings) (destination : Option String) (d d' : σ) : Prop :=
  v.SameFiles d d' ∨
    ∃ location, destination = some location ∧ Artifact.DraftLeft v s location d d'

/-- Storing the text of a run ends with a fault or a failure and the files spared, or without an
output file and nothing done, or with the text at its destination. -/
theorem storeText_cases (hv : v.Orderly s) (content : Artifact.Content)
    (hfree : DraftFree v s settings d) :
    (∃ fault d', (storeText s settings content).leaves d = (.error fault, d') ∧
        Spared v s (destination? s settings) d d') ∨
      (∃ message d', (storeText s settings content).leaves d = (.ok (.error message), d') ∧
        Spared v s (destination? s settings) d d') ∨
      (storeText s settings content).leaves d = (.ok (.ok ""), d) ∨
      ∃ location d', destination? s settings = some location ∧ location ≠ "" ∧
        (storeText s settings content).leaves d = (.ok (.ok location), d') ∧
        content.bytes? = some content.text.toUTF8 ∧
        Artifact.Stored v s location content.text d d' := by
  rw [storeText]
  by_cases hpath : settings.outputPath = ""
  · rw [if_pos hpath]
    exact .inr (.inr (.inl rfl))
  rw [if_neg hpath, Job.leaves_bind, Job.leaves_ofExcept]
  cases hresolve : Location.resolve s settings.outputPath settings.outputPath with
  | error fault => exact .inl ⟨fault, d, rfl, .inl (.refl d)⟩
  | ok location =>
    have hdestination : destination? s settings = some location := by
      rw [destination?, if_neg hpath, hresolve]
      rfl
    have hspells := Location.spells_of_resolve hresolve
    simp only [Job.leaves_bind, Job.leaves_ofStoring]
    rcases hstore : (Artifact.store s location content).on d with ⟨outcome, d'⟩
    rcases Artifact.store_cases hv hspells (hfree location hdestination) hstore with
      ⟨hfailed, hspared⟩ | ⟨rfl, hbytes, hstored⟩
    · have hspared : Spared v s (destination? s settings) d d' :=
        hspared.imp_right fun hleft => ⟨location, hdestination, hleft⟩
      rcases outcome with e | encoded
      · cases hfault : FileSystem.fault? σ e with
        | some fault => exact .inl ⟨fault, d', by simp [hfault], hspared⟩
        | none => exact .inr (.inl ⟨_, d', by simp [hfault]; rfl, hspared⟩)
      · cases encoded with
        | false => exact .inl ⟨.notText, d', rfl, hspared⟩
        | true => exact absurd rfl hfailed
    · exact .inr (.inr (.inr
        ⟨location, d', hdestination, hspells.ne_empty, rfl, hbytes, hstored⟩))

/-! ### Whole runs -/

/-- How a run may end: with a fault or without an output file, and the files spared, or with its
text at its destination. -/
inductive AllOrNothing (v : FileView σ) (s : Surroundings) (destination : Option String) (d : σ) :
    Except Fault RunResult × σ → Prop
  | fault {fault : Fault} {d' : σ} (spared : Spared v s destination d d') :
      AllOrNothing v s destination d (.error fault, d')
  | nothing {r : RunResult} {d' : σ} (path : r.ok = true → r.outputPath = "")
      (spared : Spared v s destination d d') : AllOrNothing v s destination d (.ok r, d')
  | all {r : RunResult} {d' : σ} (ok : r.ok = true) (path : r.outputPath ≠ "")
      (named : destination = some r.outputPath)
      (stored : Artifact.Stored v s r.outputPath r.text d d') :
      AllOrNothing v s destination d (.ok r, d')

/-- A text that was stored can be encoded, and counting the records of an object cannot fail, so
nothing fails once the text is stored. -/
theorem process_allOrNothing (hv : v.Orderly s) (fields : Fields) (halves : Bool)
    (hfree : DraftFree v s settings d) :
    AllOrNothing v s (destination? s settings) d
      ((process s settings (.obj fields) halves).leaves d) := by
  rw [process, Job.leaves_bind, Job.leaves_ofReport]
  cases (generate settings (.obj fields)).outcome with
  | error fault =>
    cases hmessage : fault.message? with
    | some message =>
      simp only [hmessage]
      exact .nothing nofun (.inl (.refl d))
    | none =>
      simp only [hmessage]
      exact .fault (.inl (.refl d))
  | ok text =>
    simp only [Job.leaves_bind]
    rcases storeText_cases hv ⟨text, halves⟩ hfree with
      ⟨fault, d', hstore, hspared⟩ | ⟨message, d', hstore, hspared⟩ | hstore |
      ⟨location, d', hdestination, hlocation, hstore, hbytes, hstored⟩
    · rw [hstore]
      exact .fault hspared
    · rw [hstore]
      exact .nothing nofun hspared
    · rw [hstore]
      cases hbytes : (Artifact.Content.mk text halves).bytes? with
      | none => exact .fault (.inl (.refl d))
      | some bytes => exact .nothing (fun _ => rfl) (.inl (.refl d))
    · rw [hstore, hbytes]
      exact .all rfl hlocation hdestination hstored

theorem run_allOrNothing (hv : v.Orderly s) (given : Json) (apis? : Option Fields)
    (hfree : DraftFree v s (Settings.checkLenient s.directory given).1 d) :
    AllOrNothing v s (destination? s (Settings.checkLenient s.directory given).1) d
      ((run s given (apis?.elim .null .obj)).leaves d) := by
  rw [run, Job.leaves_bind, Job.leaves_tell]
  dsimp only
  rw [Job.leaves_bind, leaves_checkedSettings]
  generalize (Settings.checkLenient s.directory given).1 = settings at hfree ⊢
  cases apis? with
  | some fields => exact process_allOrNothing hv fields false hfree
  | none =>
    simp only [Option.elim_none, Job.leaves_bind, Job.leaves_ofExcept]
    cases Location.resolve s settings.inputPath settings.inputPath with
    | error fault => exact .fault (.inl (.refl d))
    | ok location =>
      let loaded := { settings with inputPath := location }
      have hloaded : DraftFree v s loaded d := hfree
      dsimp only
      rcases leaves_loadDescription s loaded d with
        ⟨description, -, hload⟩ | ⟨e, hload⟩ | ⟨fault, hload⟩
      · rw [hload]
        exact process_allOrNothing hv description.fields description.halves hloaded
      · rw [hload]
        exact .nothing nofun (.inl (.refl d))
      · rw [hload]
        exact .fault (.inl (.refl d))

/-- On a disk a draft can always be removed, so a run that does not store its text leaves all files
exactly as they were. -/
theorem sameFiles_of_run (given : Json) (apis? : Option Fields) (d : Disk)
    (hfree : DraftFree Disk.view s (Settings.checkLenient s.directory given).1 d)
    (hnone : ∀ r, ((run s given (apis?.elim .null .obj)).leaves d).1 = .ok r → r.ok = true →
      r.outputPath = "") :
    Disk.view.SameFiles d ((run s given (apis?.elim .null .obj)).leaves d).2 := by
  have hdisk (location : String) (d' : Disk)
      (hlocation : destination? s (Settings.checkLenient s.directory given).1 = some location) :
      ¬ Artifact.DraftLeft Disk.view s location d d' :=
    Disk.not_draftLeft (spells_of_destination hlocation)
  have hrun := run_allOrNothing (Disk.orderly s) given apis? hfree
  generalize (run s given (apis?.elim .null .obj)).leaves d = ending at hrun hnone
  cases hrun with
  | fault spared | nothing _ spared =>
    rcases spared with hsame | ⟨location, hlocation, hleft⟩
    · exact hsame
    · exact absurd hleft (hdisk location _ hlocation)
  | all ok path named stored => exact absurd (hnone _ rfl ok) path

end Run

end ApiTypings
