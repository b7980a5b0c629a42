import ApiTypings.Proofs.Storage.Artifact
import ApiTypings.Proofs.Storage.Change

/-!
The disk is an orderly file system.

The files of a disk are those at the places of its entries, and a location in standard form leads to
the place of its names. On a disk a draft is never left: what is found there and is a file can be
removed.
-/

namespace ApiTypings.Disk

variable {d d' : Disk} {directory location : String} {p : Place} {bytes : ByteArray}

/-! ### Files that are found -/

theorem exists?_of_file (hlocate : d.locate directory location = .ok p)
    (hfile : d.look p = some (.file bytes)) :
    d.exists? directory location = !asksDirectory location := by
  cases hasks : asksDirectory location <;>
    simp [exists?, lookAt, hlocate, hfile, hasks, bind, Except.bind, pure, Except.pure]

/-- Nothing exists at a location whose place is free, whether or not it can be followed. -/
theorem not_exists_of_free (hspells : Location.Spells location p) (hfree : d.look p = none) :
    d.exists? directory location = false := by
  cases hlocate : d.locate directory location with
  | error cause => simp [exists?, lookAt, hlocate, bind, Except.bind]
  | ok q =>
    rw [locate_eq_ok hspells hlocate] at hlocate
    simp [exists?, lookAt, hlocate, hfree, bind, Except.bind, pure, Except.pure]

theorem locate_of_exists (h : d.exists? directory location = true) :
    ∃ p, d.locate directory location = .ok p := by
  cases hlocate : d.locate directory location with
  | error cause => simp [exists?, lookAt, hlocate, bind, Except.bind] at h
  | ok p => exact ⟨p, rfl⟩

theorem file?_eq_some : d.file? p = some bytes ↔ d.look p = some (.file bytes) := by
  unfold file?
  split
  next held hlook => simp [hlook]
  next hother => exact ⟨nofun, fun hlook => absurd hlook (hother bytes)⟩

/-- A place that is not the root: files and what is to become one stand at such places only. -/
theorem ne_nil_of_look (h : d.look p ≠ some .directory) : p ≠ [] := by
  rintro rfl
  exact h rfl

theorem file?_put (hp : p ≠ []) (q : Place) :
    (d.put p (.file bytes)).file? q = if q = p then some bytes else d.file? q := by
  by_cases hq : q = p <;> simp [file?, look_put d hp, hq]

theorem file?_erase (hp : p ≠ []) (q : Place) :
    (d.erase p).file? q = if q = p then none else d.file? q := by
  by_cases hq : q = p <;> simp [file?, look_erase d hp, hq]

/-! ### The laws -/

/-- The files of a disk. -/
def view : FileView Disk := ⟨Place, Location.fold, file?⟩

variable {s : Surroundings} {names : List String}

theorem sameBut_put (hp : p ≠ []) : view.SameBut p d (d.put p (.file bytes)) :=
  fun q hq => (file?_put hp q).trans (if_neg hq)

theorem sameBut_erase (hp : p ≠ []) : view.SameBut p d (d.erase p) :=
  fun q hq => (file?_erase hp q).trans (if_neg hq)

theorem fold_eq_of_locate (hspells : Location.Spells location names)
    (hlocate : d.locate directory location = .ok p) : Location.fold location = p := by
  rw [locate_eq_ok hspells hlocate, hspells.fold_eq]

/-- A new content leaves a file where it is found. -/
theorem exists?_put (hlocate : d.locate directory location = .ok p)
    (hfile : d.look p ≠ some .directory) :
    (d.put p (.file bytes)).exists? directory location = !asksDirectory location := by
  have hp := ne_nil_of_look hfile
  have hput : (d.put p (.file bytes)).look p = some (.file bytes) := by
    rw [look_put d hp, if_pos rfl]
  exact exists?_of_file ((keepsDirectories_put hp hfile _).locate hlocate) hput

theorem makeParents_keeps {r : Except DiskError Unit}
    (hdone : (Storing.makeParents s location).on d = (r, d')) : view.SameFiles d d' := by
  have hadds := Storing.addsDirectories_makeDirectoriesFrom
    (Location.root (Location.absolute s location)) []
    (Location.fold (Location.absolute s location)).dropLast d
  rw [Storing.makeParents] at hdone
  rw [hdone] at hadds
  exact hadds.file?_eq

theorem openFile_keeps {r : Except DiskError Unit} (hspells : Location.Spells location names)
    (hdone : (Storing.openFile s location).on d = (r, d')) :
    view.SameBut (Location.fold location) d d' ∧
      (r = .ok () → d'.file? (Location.fold location) = some ByteArray.empty) ∧
      (d.file? (Location.fold location) = none → view.Sees s location d') := by
  rcases Storing.openFile_cases s location d with ⟨e, hfail⟩ | ⟨p, hlocate, hfile, hasks, hopen⟩
  · rw [hfail] at hdone
    obtain ⟨rfl, rfl⟩ := Prod.mk.inj hdone
    exact ⟨.refl d, nofun, fun hnone hsome => absurd hnone hsome⟩
  · rw [hopen] at hdone
    obtain ⟨rfl, rfl⟩ := Prod.mk.inj hdone
    rw [fold_eq_of_locate hspells hlocate]
    have hp := ne_nil_of_look hfile
    refine ⟨sameBut_put hp, fun _ => (file?_put hp p).trans (if_pos rfl), fun _ _ => ?_⟩
    exact (exists?_put hlocate hfile).trans (congrArg _ hasks)

theorem extend_keeps {r : Except DiskError Unit} (hspells : Location.Spells location names)
    (hdone : (Storing.extend s location bytes).on d = (r, d')) :
    view.SameBut (Location.fold location) d d' ∧
      (∀ held, r = .ok () → d.file? (Location.fold location) = some held →
        d'.file? (Location.fold location) = some (held ++ bytes)) ∧
      (view.Sees s location d → view.Sees s location d') := by
  rcases Storing.extend_cases s location bytes d with ⟨e, hfail⟩ | ⟨p, held, hlocate, hfile, hextend⟩
  · rw [hfail] at hdone
    obtain ⟨rfl, rfl⟩ := Prod.mk.inj hdone
    exact ⟨.refl d, nofun, id⟩
  · rw [hextend] at hdone
    obtain ⟨rfl, rfl⟩ := Prod.mk.inj hdone
    have hplace := fold_eq_of_locate hspells hlocate
    rw [hplace]
    have hentry : d.look p ≠ some .directory := by simp [hfile]
    have hp := ne_nil_of_look hentry
    refine ⟨sameBut_put hp, fun held' _ hheld => ?_, fun hsees _ => ?_⟩
    · rw [file?_put hp, if_pos rfl]
      rw [file?_eq_some, hfile] at hheld
      cases hheld
      rfl
    · have hexists : d.exists? s.directory location = true := hsees (by
        change d.file? (Location.fold location) ≠ none
        rw [hplace, file?_eq_some.2 hfile]
        exact nofun)
      rw [exists?_of_file hlocate hfile] at hexists
      exact (exists?_put hlocate hentry).trans hexists

theorem rename_keeps {source target : String} {names' : List String}
    (hsource : Location.Spells source names) (htarget : Location.Spells target names')
    (hne : Location.fold source ≠ Location.fold target)
    (hdone : (Storing.rename s source target).on d = (.ok (), d'))
    (hheld : d.file? (Location.fold source) = some bytes) :
    d'.file? (Location.fold target) = some bytes ∧ d'.file? (Location.fold source) = none ∧
      d'.exists? s.directory source = false ∧
      ∀ p, p ≠ Location.fold source → p ≠ Location.fold target → d'.file? p = d.file? p := by
  rcases Storing.rename_cases s source target d with
    ⟨e, hfail⟩ | ⟨old, new, held, hold, hnew, -, -, hfile, hentry, hrename⟩
  · rw [hfail] at hdone
    cases hdone
  · rw [hrename] at hdone
    obtain ⟨-, rfl⟩ := Prod.mk.inj hdone
    have hplace := fold_eq_of_locate hsource hold
    rw [hplace, fold_eq_of_locate htarget hnew] at hne ⊢
    rw [hplace, file?_eq_some, hfile] at hheld
    obtain rfl := DiskEntry.file.inj (Option.some.inj hheld)
    have hp : old ≠ [] := ne_nil_of_look (d := d) (by simp [hfile])
    have hp' : new ≠ [] := ne_nil_of_look hentry
    have hfree : ((d.erase old).put new (.file held)).look old = none := by
      rw [look_put _ hp', if_neg hne, look_erase d hp, if_pos rfl]
    refine ⟨(file?_put hp' new).trans (if_pos rfl), ?_, ?_, fun p hold' hnew' => ?_⟩
    · rw [file?, hfree]
    · exact not_exists_of_free (locate_eq_ok hsource hold ▸ hsource) hfree
    · rw [file?_put hp', if_neg hnew', file?_erase hp, if_neg hold']

theorem removeFile_keeps {r : Except DiskError Unit} (hspells : Location.Spells location names)
    (hdone : (Storing.removeFile s location).on d = (r, d')) :
    view.SameBut (Location.fold location) d d' ∧
      (r = .ok () → d'.file? (Location.fold location) = none) := by
  rcases Storing.removeFile_cases s location d with ⟨e, hfail⟩ | ⟨p, held, hlocate, hfile, hremove⟩
  · rw [hfail] at hdone
    obtain ⟨rfl, rfl⟩ := Prod.mk.inj hdone
    exact ⟨.refl d, nofun⟩
  · rw [hremove] at hdone
    obtain ⟨rfl, rfl⟩ := Prod.mk.inj hdone
    rw [fold_eq_of_locate hspells hlocate]
    have hp : p ≠ [] := ne_nil_of_look (d := d) (by simp [hfile])
    exact ⟨sameBut_erase hp, fun _ => (file?_erase hp p).trans (if_pos rfl)⟩

theorem orderly (s : Surroundings) : view.Orderly s where
  draft_ne {location _} hspells := by
    change Location.fold (Artifact.draft location) ≠ Location.fold location
    rw [(Artifact.spells_draft hspells).fold_eq, hspells.fold_eq]
    exact Artifact.draftNames_ne _
  makeParents _ hdone := makeParents_keeps hdone
  openFile hspells hdone := (openFile_keeps hspells hdone).1
  openFile_ok hspells hdone := (openFile_keeps hspells hdone).2.1 rfl
  openFile_sees hspells hdone := (openFile_keeps hspells hdone).2.2
  extend hspells hdone := (extend_keeps hspells hdone).1
  extend_ok hspells hdone := (extend_keeps hspells hdone).2.1 _ rfl
  extend_sees hspells hdone := (extend_keeps hspells hdone).2.2
  rename_error {source target _ _ d _ _} _ _ hdone := by
    rcases Storing.rename_cases s source target d with ⟨e, hfail⟩ | ⟨_, _, _, _, _, _, _, _, _, hok⟩
    · obtain ⟨-, rfl⟩ := Prod.mk.inj (hfail.symm.trans hdone)
      exact ⟨.refl d, id⟩
    · cases hok.symm.trans hdone
  rename_ok hsource htarget hne hdone hheld := rename_keeps hsource htarget hne hdone hheld
  removeFile hspells hdone := (removeFile_keeps hspells hdone).1
  removeFile_ok hspells hdone := (removeFile_keeps hspells hdone).2 rfl

/-! ### Drafts on a disk -/

/-- A file that is found can be removed, so no draft is ever left. -/
theorem not_draftLeft (hspells : Location.Spells location names) :
    ¬ Artifact.DraftLeft view s location d d' := by
  rintro ⟨⟨bytes, hleft⟩, -, before, e, hexists, hrefused⟩
  obtain ⟨p, hlocate⟩ := locate_of_exists hexists
  rcases Storing.removeFile_cases s (Artifact.draft location) before with
    ⟨e', hfail⟩ | ⟨_, _, _, _, hok⟩
  · obtain ⟨-, rfl⟩ := Prod.mk.inj (hfail.symm.trans hrefused)
    have hplace := fold_eq_of_locate (Artifact.spells_draft hspells) hlocate
    have hfile : before.look p = some (.file bytes) := file?_eq_some.1 (hplace ▸ hleft)
    cases (Storing.removeFile_on hlocate hfile).symm.trans hfail
  · cases hok.symm.trans hrefused

end ApiTypings.Disk
