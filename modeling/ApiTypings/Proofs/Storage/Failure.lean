import ApiTypings.Proofs.Storage.Change

/-!
Why changes of a disk fail.

A change fails because of what stands on the disk, or because a location has a character that no
location can have. Such a character is not made on the way to a standard form, so that changes at
other locations fail for reasons of the disk only.
-/

namespace ApiTypings

namespace Disk

variable {d : Disk} {directory location : String}

theorem follow_ne_unusable (d : Disk) (here : Place) (names : List String) :
    d.follow here names ≠ .error .unusable := by
  intro h
  fun_induction Disk.follow d here names with
  | case4 here rest _ ih => exact ih h
  | case5 here rest _ _ ih => exact ih h
  | case7 here part rest _ _ _ _ ih => exact ih h
  | _ => cases h

theorem locate_ne_unusable (h : '\x00' ∉ location.toList) :
    d.locate directory location ≠ .error .unusable := by
  unfold locate
  split
  · exact nofun
  · split
    · exact nofun
    · split <;> exact follow_ne_unusable d _ _

theorem cause_of_writable {e : DiskError} (h : '\x00' ∉ location.toList)
    (he : d.writable directory location = .error e) : e.cause ≠ .unusable := by
  unfold writable at he
  split at he
  next cause hcause =>
    obtain rfl := Except.error.inj he
    rintro rfl
    exact locate_ne_unusable h hcause
  next =>
    split at he
    · obtain rfl := Except.error.inj he
      exact nofun
    · cases he

end Disk

namespace Storing

variable {α β : Type} {x : DiskChange α} {f : α → DiskChange β}

/-- A change of a disk that does not fail because a location cannot be one. -/
def Sane (x : DiskChange α) : Prop := ∀ d e, (x.on d).1 = .error e → e.cause ≠ .unusable

theorem sane_fail {cause : DiskCause} (h : cause ≠ .unusable) (location : String) :
    Sane (fail cause location : DiskChange α) := by
  rintro d e he
  obtain rfl := Except.error.inj he
  exact h

theorem Sane.bind (hx : Sane x) (hf : ∀ a, Sane (f a)) : Sane (x >>= f) := by
  intro d e he
  rw [on_bind] at he
  have hfirst := hx d
  generalize x.on d = ending at he hfirst
  obtain ⟨outcome, later⟩ := ending
  cases outcome with
  | error cause =>
    obtain rfl := Except.error.inj he
    exact hfirst _ rfl
  | ok a => exact hf a later e he

theorem sane_modify (change : Disk → Disk) : Sane (modify change : DiskChange PUnit) := by
  intro d e he
  rw [on_modify] at he
  cases he

theorem sane_makeDirectoriesFrom (root : String) {names : List String}
    (h : ∀ name ∈ names, '\x00' ∉ name.toList) (above : Place) :
    Sane (makeDirectoriesFrom root above names) := by
  induction names generalizing above with
  | nil => exact fun d e he => nomatch he
  | cons name rest ih =>
    have hrest := ih fun other hother => h other (List.mem_cons_of_mem name hother)
    have hname := h name List.mem_cons_self
    intro d
    rw [makeDirectoriesFrom, on_get_bind]
    split
    · exact hrest _ d
    · exact sane_fail (by decide) _ d
    · exact sane_fail (by decide) _ d
    · rw [if_neg hname]
      split
      · exact sane_fail (by decide) _ d
      · exact Sane.bind (sane_modify _) (fun _ => hrest _) d

variable {s : Surroundings} {location : String}

theorem zero_not_mem_absolute (hdirectory : '\x00' ∉ s.directory.toList)
    (hlocation : '\x00' ∉ location.toList) : '\x00' ∉ (Location.absolute s location).toList :=
  fun hzero => (Location.mem_absolute hzero (by decide)).elim hdirectory hlocation

theorem sane_makeParents (hdirectory : '\x00' ∉ s.directory.toList)
    (hlocation : '\x00' ∉ location.toList) : Sane (makeParents s location) := by
  have hnames : ∀ name ∈ (Location.fold (Location.absolute s location)).dropLast,
      '\x00' ∉ name.toList := fun name hname hzero =>
    zero_not_mem_absolute hdirectory hlocation
      (Location.mem_of_mem_fold (List.dropLast_subset _ hname) hzero)
  unfold makeParents
  exact sane_makeDirectoriesFrom _ hnames []

end Storing

end ApiTypings
