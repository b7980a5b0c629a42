import ApiTypings.Proofs.Storage.FileSystem

/-!
Storing a text is all or nothing.

Only one file is written, the draft, and it has a place of its own beside the destination. If no
file is at this place before a text is stored, then storing it leaves the text at its destination
and no draft, or it leaves all files as they were, or nothing but the draft has come up, which the
file system refused to remove.
-/

namespace ApiTypings

namespace Artifact

variable {σ ε : Type} {s : Surroundings} {location : String} {names : List String}
  {content : Content} {bytes : ByteArray}

/-- A text that can be encoded is so in UTF-8. -/
theorem Content.eq_of_bytes? (h : content.bytes? = some bytes) : bytes = content.text.toUTF8 := by
  unfold bytes? at h
  split at h
  · cases h
  · exact (Option.some.inj h).symm

/-! ### The location of a draft -/

/-- The names that lead to the draft of a text, from those that lead to its destination. -/
def draftNames (names : List String) : List String :=
  names.dropLast ++ [names.getLastD "" ++ ".tmp"]

theorem isName_draft {name : String} (h : '/' ∉ name.toList) :
    Location.IsName (name ++ ".tmp") := by
  have hend : ∀ other : String, other.toList.getLast? ≠ some 'p' → name ++ ".tmp" ≠ other := by
    rintro other hother rfl
    simp at hother
  exact ⟨hend _ (by decide), by simp [h], hend _ (by decide), hend _ (by decide)⟩

theorem spells_draft (h : Location.Spells location names) :
    Location.Spells (draft location) (draftNames names) := by
  refine h.append (isName_draft ?_)
  rcases List.eq_nil_or_concat names with rfl | ⟨above, name, rfl⟩
  · simp
  · simpa using (h.plain name (by simp)).single

theorem draftNames_ne (names : List String) : draftNames names ≠ names := by
  intro h
  rcases List.eq_nil_or_concat names with rfl | ⟨above, name, rfl⟩
  · simp [draftNames] at h
  · simp [draftNames] at h

/-! ### What storing leaves -/

variable [FileSystem σ ε] {v : FileView σ} {d d' : σ}

/-- The text is at its destination, there is no draft, and all other files are as they were. -/
structure Stored (v : FileView σ) (s : Surroundings) (location text : String) (d d' : σ) :
    Prop where
  text : v.file? d' (v.place location) = some text.toUTF8
  draft : v.file? d' (v.place (draft location)) = none
  unseen : FileSystem.exists? d' s.directory (Artifact.draft location) = false
  others : ∀ p, p ≠ v.place location → v.file? d' p = v.file? d p

/-- The draft is there, because the file system refused to remove it, and all other files are as
they were. -/
structure DraftLeft (v : FileView σ) (s : Surroundings) (location : String) (d d' : σ) :
    Prop where
  left : ∃ bytes, v.file? d' (v.place (draft location)) = some bytes
  others : v.SameBut (v.place (draft location)) d d'
  refused : ∃ before e, FileSystem.exists? before s.directory (draft location) = true ∧
    (FileSystem.removeFile s (draft location)).on before = (.error e, d')

/-- All files are as they were, but for a draft that could not be removed. -/
def Spared (v : FileView σ) (s : Surroundings) (location : String) (d d' : σ) : Prop :=
  v.SameFiles d d' ∨ DraftLeft v s location d d'

theorem Stored.of_sameFiles {d₁ : σ} {text : String} (hsame : v.SameFiles d d₁)
    (h : Stored v s location text d₁ d') : Stored v s location text d d' where
  text := h.text
  draft := h.draft
  unseen := h.unseen
  others p hp := (h.others p hp).trans (hsame p)

/-! ### The parts of storing -/

/-- Whatever comes of writing a draft, it touches no other file and leaves the draft where it is
found; and the draft holds the text if it was written. -/
theorem writeDraft_cases (hv : v.Orderly s) (h : Location.Spells location names)
    (hfree : v.file? d (v.place (draft location)) = none) {bytes? : Option ByteArray}
    {r : Except ε Bool} (hwrite : (Storing.writeFile s (draft location) bytes?).on d = (r, d')) :
    v.SameBut (v.place (draft location)) d d' ∧ v.Sees s (draft location) d' ∧
      (r = .ok true → ∃ bytes, bytes? = some bytes ∧
        v.file? d' (v.place (draft location)) = some bytes) := by
  have hdraft := spells_draft h
  unfold Storing.writeFile at hwrite
  rw [Storing.on_bind] at hwrite
  rcases hopen : (FileSystem.openFile s (draft location)).on d with ⟨e | _, d₁⟩
  all_goals
    have hbut := hv.openFile hdraft hopen
    have hsees := hv.openFile_sees hdraft hopen hfree
    rw [hopen] at hwrite
  · obtain ⟨rfl, rfl⟩ := Prod.mk.inj hwrite
    exact ⟨hbut, hsees, nofun⟩
  cases bytes? with
  | none =>
    obtain ⟨rfl, rfl⟩ := Prod.mk.inj hwrite
    exact ⟨hbut, hsees, nofun⟩
  | some bytes =>
    simp only [Storing.on_bind] at hwrite
    rcases hextend : (FileSystem.extend s (draft location) bytes).on d₁ with ⟨e | _, d₂⟩
    all_goals
      have hbut' := hbut.trans (hv.extend hdraft hextend)
      have hsees' := hv.extend_sees hdraft hextend hsees
      rw [hextend] at hwrite
      obtain ⟨rfl, rfl⟩ := Prod.mk.inj hwrite
    · exact ⟨hbut', hsees', nofun⟩
    · have hheld := hv.extend_ok hdraft hextend (hv.openFile_ok hdraft hopen)
      rw [ByteArray.empty_append] at hheld
      exact ⟨hbut', hsees', fun _ => ⟨bytes, rfl, hheld⟩⟩

/-- Publishing a text puts it at its place, or touches nothing but its draft. -/
theorem publish_cases (hv : v.Orderly s) (h : Location.Spells location names)
    (hfree : v.file? d (v.place (draft location)) = none) {r : Except ε Bool}
    (hpublish : (publish s location content).on d = (r, d')) :
    (r ≠ .ok true ∧ v.SameBut (v.place (draft location)) d d' ∧ v.Sees s (draft location) d') ∨
      r = .ok true ∧ content.bytes? = some content.text.toUTF8 ∧
        Stored v s location content.text d d' := by
  rw [publish, Storing.on_bind] at hpublish
  rcases hwrite : (Storing.writeFile s (draft location) content.bytes?).on d with ⟨e | written, d₁⟩
  all_goals
    obtain ⟨hbut, hsees, hdone⟩ := writeDraft_cases hv h hfree hwrite
    rw [hwrite] at hpublish
  · obtain ⟨rfl, rfl⟩ := Prod.mk.inj hpublish
    exact .inl ⟨nofun, hbut, hsees⟩
  cases written with
  | false =>
    obtain ⟨rfl, rfl⟩ := Prod.mk.inj hpublish
    exact .inl ⟨nofun, hbut, hsees⟩
  | true =>
    obtain ⟨bytes, hbytes, hheld⟩ := hdone rfl
    simp only [if_true, Storing.on_bind] at hpublish
    rcases hrename : (FileSystem.rename s (draft location) location).on d₁ with ⟨e | _, d₂⟩
    all_goals
      rw [hrename] at hpublish
      obtain ⟨rfl, rfl⟩ := Prod.mk.inj hpublish
    · obtain ⟨hbut', hsees'⟩ := hv.rename_error (spells_draft h) h hrename
      exact .inl ⟨nofun, hbut.trans hbut', hsees' hsees⟩
    · obtain ⟨htext, hgone, hunseen, hothers⟩ :=
        hv.rename_ok (spells_draft h) h (hv.draft_ne h) hrename hheld
      obtain rfl := Content.eq_of_bytes? hbytes
      refine .inr ⟨rfl, hbytes, htext, hgone, hunseen, fun p hp => ?_⟩
      by_cases hdraft : p = v.place (draft location)
      · rw [hdraft, hgone, hfree]
      · rw [hothers p hdraft hp, hbut p hdraft]

/-- A draft that is found is removed, unless the file system refuses to. -/
theorem discardDraft_cases (hv : v.Orderly s) (h : Location.Spells location names) {d₀ : σ}
    (hfree : v.file? d₀ (v.place (draft location)) = none)
    (hbut : v.SameBut (v.place (draft location)) d₀ d) (hsees : v.Sees s (draft location) d)
    {r : Except ε Unit} (hdiscard : (discardDraft s location).on d = (r, d')) :
    Spared v s location d₀ d' := by
  rw [discardDraft, Storing.on_get_bind] at hdiscard
  split at hdiscard
  next hexists =>
    have hafter := hbut.trans (hv.removeFile (spells_draft h) hdiscard)
    cases hfile : v.file? d' (v.place (draft location)) with
    | none => exact .inl (hafter.sameFiles hfree hfile)
    | some bytes =>
      cases r with
      | ok _ =>
        rw [hv.removeFile_ok (spells_draft h) hdiscard] at hfile
        cases hfile
      | error e => exact .inr ⟨⟨bytes, hfile⟩, hafter, d, e, hexists, hdiscard⟩
  next hunseen =>
    obtain ⟨-, rfl⟩ := Prod.mk.inj hdiscard
    refine .inl (hbut.sameFiles hfree (Classical.not_not.1 fun hsome => hunseen (hsees hsome)))

/-! ### Storing -/

/-- Storing a text leaves it at its destination and all other files as they were, or it leaves all
files as they were but for a draft that could not be removed. -/
theorem store_cases (hv : v.Orderly s) (h : Location.Spells location names)
    (hfree : v.file? d (v.place (draft location)) = none) {r : Except ε Bool}
    (hstore : (store s location content).on d = (r, d')) :
    (r ≠ .ok true ∧ Spared v s location d d') ∨
      r = .ok true ∧ content.bytes? = some content.text.toUTF8 ∧
        Stored v s location content.text d d' := by
  rw [store, Storing.on_bind] at hstore
  rcases hmake : (FileSystem.makeParents s location).on d with ⟨e | _, d₁⟩
  all_goals
    have hsame := hv.makeParents h hmake
    rw [hmake] at hstore
  · obtain ⟨rfl, rfl⟩ := Prod.mk.inj hstore
    exact .inl ⟨nofun, .inl hsame⟩
  simp only [Storing.on_bind, Storing.on_attempt] at hstore
  rcases hpublish : (publish s location content).on d₁ with ⟨outcome, d₂⟩
  rw [hpublish] at hstore
  rcases publish_cases hv h ((hsame _).trans hfree) hpublish with
    ⟨hfailed, hbut, hsees⟩ | ⟨rfl, hbytes, hstored⟩
  · rcases hdiscard : (discardDraft s location).on d₂ with ⟨e | _, d₃⟩
    all_goals
      have hspared := discardDraft_cases hv h hfree ((hsame.sameBut _).trans hbut) hsees hdiscard
      rw [hdiscard] at hstore
    · obtain ⟨rfl, rfl⟩ := Prod.mk.inj hstore
      exact .inl ⟨nofun, hspared⟩
    · cases outcome <;> obtain ⟨rfl, rfl⟩ := Prod.mk.inj hstore
      · exact .inl ⟨nofun, hspared⟩
      · exact .inl ⟨hfailed, hspared⟩
  · have hdiscard : (discardDraft s location).on d₂ = (.ok (), d₂) := by
      rw [discardDraft, Storing.on_get_bind, hstored.unseen]
      rfl
    rw [hdiscard] at hstore
    obtain ⟨rfl, rfl⟩ := Prod.mk.inj hstore
    exact .inr ⟨rfl, hbytes, hstored.of_sameFiles hsame⟩

end Artifact

end ApiTypings
