import ApiTypings.Proofs.Run.Atomicity

/-!
The description that a run reads.

A run that is not given a description reads it at the standard form of the input path. If it
succeeds, it has found a file there.
-/

namespace ApiTypings

namespace Disk

variable {d : Disk} {directory location : String} {bytes : ByteArray}

theorem isFile_of_read (h : d.read directory location = .ok bytes) :
    d.isFile directory location = true := by
  unfold read at h
  unfold isFile
  split at h
  next hlook => rw [hlook]
  next => cases h
  next => cases h
  next => cases h

end Disk

theorem Description.isFile_of_load {d : Disk} {directory location : String}
    {description : Description} (h : load d directory location = .ok description) :
    d.isFile directory location = true := by
  cases hread : d.read directory location with
  | error e =>
    rw [load, show FileSystem.read d directory location = .error e from hread] at h
    cases h
  | ok bytes => exact Disk.isFile_of_read hread

namespace Run

variable {s : Surroundings} {settings : Settings} {d : Disk} {r : RunResult}

/-- A description that was loaded was read from the input path. -/
theorem isFile_of_loadDescription {description : Description} {d' : Disk}
    (h : (loadDescription s settings).leaves d = (.ok (.ok description), d')) :
    d.isFile s.directory settings.inputPath = true := by
  rcases leaves_loadDescription s settings d with
    ⟨loaded, hload, -⟩ | ⟨e, hload⟩ | ⟨fault, hload⟩
  · exact Description.isFile_of_load hload
  · cases hload.symm.trans h
  · cases hload.symm.trans h

/-- A run that succeeds without being given a description has found a file at the standard form of
its input path. -/
theorem isFile_of_run {given : Json} (hr : ((run s given .null).on d).outcome = .ok r)
    (hok : r.ok = true) :
    d.isFile s.directory
      (Location.normalize s (Settings.checkLenient s.directory given).1.inputPath
        (Settings.checkLenient s.directory given).1.inputPath) = true := by
  have hleaves : ((run s given .null).leaves d).1 = .ok r := hr
  rw [run, Job.leaves_bind, Job.leaves_tell] at hleaves
  dsimp only at hleaves
  rw [Job.leaves_bind, leaves_checkedSettings] at hleaves
  generalize (Settings.checkLenient s.directory given).1 = settings at hleaves ⊢
  simp only [Job.leaves_bind, Job.leaves_ofExcept] at hleaves
  cases hlocation : Location.resolve s settings.inputPath settings.inputPath with
  | error fault =>
    rw [hlocation] at hleaves
    cases hleaves
  | ok location =>
    rw [hlocation] at hleaves
    dsimp only at hleaves
    rw [← Location.resolve_eq_ok hlocation]
    generalize hload : (loadDescription s { settings with inputPath := location }).leaves d =
      loaded at hleaves
    obtain ⟨outcome, d'⟩ := loaded
    cases outcome with
    | error fault => cases hleaves
    | ok description =>
      cases description with
      | ok apis => exact isFile_of_loadDescription hload
      | error e =>
        obtain rfl := Except.ok.inj hleaves
        exact absurd hok Bool.false_ne_true

end Run

end ApiTypings
