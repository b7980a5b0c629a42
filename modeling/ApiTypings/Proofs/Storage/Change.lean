import ApiTypings.Proofs.Storage.FileSystem
import ApiTypings.Storage.Change

/-!
What changes of a disk do.

A location in standard form that can be followed at all leads to the place of its names, and it
still does when other directories and files have come up: only directories are passed on the way.
Each change is described once, by all that it can do to a disk.
-/

namespace ApiTypings

namespace Disk

variable {d d' d'' : Disk} {directory location : String} {p q : Place}

/-! ### Following names -/

theorem follow_eq_ok {names : List String} (hnames : ∀ name ∈ names, Location.IsName name)
    {here : Place} (h : d.follow here names = .ok p) : p = here ++ names := by
  induction names generalizing here with
  | nil =>
      rw [follow] at h
      rw [List.append_nil, Except.ok.inj h]
  | cons name rest ih =>
      have hname := hnames name List.mem_cons_self
      rw [follow] at h
      split at h
      · cases h
      · cases h
      · rw [if_neg hname.moves, if_neg hname.down] at h
        split at h
        · cases h
        · rw [ih (fun s hs => hnames s (List.mem_cons_of_mem _ hs)) h, List.append_assoc,
            List.singleton_append]

theorem locate_eq_ok {names : List String} (hspells : Location.Spells location names)
    (h : d.locate directory location = .ok p) : p = names := by
  unfold locate at h
  rw [if_pos hspells.isAbsolute, hspells.parts_eq] at h
  split at h
  · cases h
  split at h
  · cases h
  split at h
  · cases h
  · simpa using follow_eq_ok hspells.plain h

/-- The directories of a disk are directories of another one as well. -/
def KeepsDirectories (d d' : Disk) : Prop :=
  ∀ p, d.look p = some .directory → d'.look p = some .directory

/-- Only what stands above a place decides whether it is reached. -/
theorem KeepsDirectories.follow (hkeep : d.KeepsDirectories d') {here : Place}
    {names : List String} (h : d.follow here names = .ok p) : d'.follow here names = .ok p := by
  fun_induction Disk.follow d here names with
  | case1 => exact h
  | case2 => cases h
  | case3 => cases h
  | case4 here rest hhere ih => simpa [Disk.follow, hkeep here hhere] using ih h
  | case5 here rest hhere _ ih => simpa [Disk.follow, hkeep here hhere] using ih h
  | case6 => cases h
  | case7 here part rest hhere hmoves hdown hshort ih =>
      simpa [Disk.follow, hkeep here hhere, hmoves, hdown, hshort] using ih h

theorem KeepsDirectories.locate (hkeep : d.KeepsDirectories d')
    (h : d.locate directory location = .ok p) : d'.locate directory location = .ok p := by
  unfold Disk.locate at h ⊢
  by_cases hempty : location = ""
  · simp [hempty] at h
  by_cases hzero : '\x00' ∈ location.toList
  · simp [hempty, hzero] at h
  by_cases hlong : longestLocation < location.utf8ByteSize
  · simp [hempty, hzero, hlong] at h
  simp only [hempty, hzero, hlong, if_false] at h ⊢
  split at h
  next habsolute => rw [if_pos habsolute]; exact hkeep.follow h
  next hrelative => rw [if_neg hrelative]; exact hkeep.follow h

/-! ### Files of two disks -/

theorem file?_of_look (h : d'.look p = d.look p) : d'.file? p = d.file? p := by
  rw [file?, file?, h]

/-- A disk on which directories were created at places where nothing was. -/
def AddsDirectories (d d' : Disk) : Prop :=
  ∀ p, d'.look p = d.look p ∨ d.look p = none ∧ d'.look p = some .directory

namespace AddsDirectories

theorem refl (d : Disk) : AddsDirectories d d := fun _ => .inl rfl

theorem trans (h : AddsDirectories d d') (h' : AddsDirectories d' d'') : AddsDirectories d d'' := by
  intro p
  rcases h' p with hsame | ⟨hfree, hnew⟩
  · rw [hsame]
    exact h p
  · rcases h p with hsame | ⟨_, hd⟩
    · exact .inr ⟨hsame ▸ hfree, hnew⟩
    · rw [hd] at hfree
      cases hfree

theorem put (hp : p ≠ []) (hfree : d.look p = none) :
    AddsDirectories d (d.put p .directory) := by
  intro q
  rw [look_put d hp]
  split
  next hq =>
    subst hq
    exact .inr ⟨hfree, rfl⟩
  · exact .inl rfl

theorem file?_eq (h : AddsDirectories d d') (p : Place) : d'.file? p = d.file? p := by
  rcases h p with hsame | ⟨hfree, hnew⟩
  · exact file?_of_look hsame
  · simp [file?, hfree, hnew]

end AddsDirectories

/-- A file that takes the place of no directory leaves all of them. -/
theorem keepsDirectories_put (hp : p ≠ []) (hnone : d.look p ≠ some .directory)
    (e : DiskEntry) : d.KeepsDirectories (d.put p e) := by
  intro q hq
  rw [look_put d hp, if_neg]
  · exact hq
  · rintro rfl
    exact hnone hq

theorem writable_eq_ok (h : d.writable directory location = .ok p) :
    d.locate directory location = .ok p ∧ d.look p ≠ some .directory ∧
      asksDirectory location = false := by
  unfold writable at h
  split at h
  · cases h
  next place hplace =>
    split at h
    · cases h
    next hfile =>
      rw [← Except.ok.inj h]
      exact ⟨hplace, fun hd => hfile (.inr hd), by simpa using fun ha => hfile (.inl ha)⟩

end Disk

namespace Storing

variable {s : Surroundings} {d : Disk}

/-! ### What each change does -/

theorem addsDirectories_makeDirectoriesFrom (root : String) (above : Place) (names : List String)
    (d : Disk) : Disk.AddsDirectories d ((makeDirectoriesFrom root above names).on d).2 := by
  induction names generalizing above d with
  | nil => exact .refl d
  | cons name rest ih =>
      rw [makeDirectoriesFrom, on_get_bind]
      cases hlook : d.look (above ++ [name]) with
      | some entry =>
        cases entry with
        | directory => exact ih _ d
        | file bytes => cases rest <;> exact .refl d
      | none =>
        split
        · contradiction
        · contradiction
        · contradiction
        split
        · exact .refl d
        split
        · exact .refl d
        · rw [on_bind, on_modify]
          exact (Disk.AddsDirectories.put (by simp) hlook).trans (ih _ _)

/-- Opening a file for writing either fails or puts an empty file at the place of the location,
where there may be a file but no directory. -/
theorem openFile_cases (s : Surroundings) (location : String) (d : Disk) :
    (∃ e, (openFile s location).on d = (.error e, d)) ∨
      ∃ p, d.locate s.directory location = .ok p ∧ d.look p ≠ some .directory ∧
        Disk.asksDirectory location = false ∧
        (openFile s location).on d = (.ok (), d.put p (.file ByteArray.empty)) := by
  rw [openFile, on_get_bind]
  cases hwritable : d.writable s.directory location with
  | error e => exact .inl ⟨e, rfl⟩
  | ok p =>
    obtain ⟨hlocate, hfile, hasks⟩ := Disk.writable_eq_ok hwritable
    exact .inr ⟨p, hlocate, hfile, hasks, rfl⟩

/-- Writing at the end of a file either fails or adds the bytes to those of the file. -/
theorem extend_cases (s : Surroundings) (location : String) (bytes : ByteArray) (d : Disk) :
    (∃ e, (extend s location bytes).on d = (.error e, d)) ∨
      ∃ p held, d.locate s.directory location = .ok p ∧ d.look p = some (.file held) ∧
        (extend s location bytes).on d = (.ok (), d.put p (.file (held ++ bytes))) := by
  rw [extend, on_get_bind]
  cases hlocate : d.locate s.directory location with
  | error cause => exact .inl ⟨_, rfl⟩
  | ok p =>
    dsimp only
    split
    · exact .inl ⟨_, rfl⟩
    · exact .inl ⟨_, rfl⟩
    next held hlook => exact .inr ⟨p, held, rfl, hlook, rfl⟩

/-- Moving a file either fails or takes it to the place of the target, which is not that of a
directory. -/
theorem rename_cases (s : Surroundings) (source target : String) (d : Disk) :
    (∃ e, (rename s source target).on d = (.error e, d)) ∨
      ∃ old new bytes, d.locate s.directory source = .ok old ∧
        d.locate s.directory target = .ok new ∧ endsInName target = true ∧
        Disk.asksDirectory target = false ∧ d.look old = some (.file bytes) ∧
        d.look new ≠ some .directory ∧
        (rename s source target).on d = (.ok (), (d.erase old).put new (.file bytes)) := by
  rw [rename, on_get_bind]
  cases hold : d.locate s.directory source with
  | error cause => exact .inl ⟨_, rfl⟩
  | ok old =>
    cases hnew : d.locate s.directory target with
    | error cause => exact .inl ⟨_, rfl⟩
    | ok new =>
      dsimp only
      split
      · exact .inl ⟨_, rfl⟩
      next hname =>
        split
        next bytes hbytes =>
          split
          · exact .inl ⟨_, rfl⟩
          next hasks =>
          split
          · exact .inl ⟨_, rfl⟩
          next hfree =>
            exact .inr ⟨old, new, bytes, rfl, rfl, by simpa using hname, by simpa using hasks,
              hbytes, hfree, rfl⟩
        · exact .inl ⟨_, rfl⟩

/-- Removing a file either fails or takes away the file at the place of the location. -/
theorem removeFile_cases (s : Surroundings) (location : String) (d : Disk) :
    (∃ e, (removeFile s location).on d = (.error e, d)) ∨
      ∃ p bytes, d.locate s.directory location = .ok p ∧ d.look p = some (.file bytes) ∧
        (removeFile s location).on d = (.ok (), d.erase p) := by
  rw [removeFile, on_get_bind]
  cases hlocate : d.locate s.directory location with
  | error cause => exact .inl ⟨_, rfl⟩
  | ok p =>
    dsimp only
    split
    · exact .inl ⟨_, rfl⟩
    · exact .inl ⟨_, rfl⟩
    next bytes hlook => exact .inr ⟨p, bytes, rfl, hlook, rfl⟩

/-- A file that can be located is removed. -/
theorem removeFile_on {location : String} {p : Place} {bytes : ByteArray}
    (hlocate : d.locate s.directory location = .ok p) (hfile : d.look p = some (.file bytes)) :
    (removeFile s location).on d = (.ok (), d.erase p) := by
  rw [removeFile, on_get_bind, hlocate]
  dsimp only
  rw [hfile]
  rfl

end Storing

end ApiTypings
