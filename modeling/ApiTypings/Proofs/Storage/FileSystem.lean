import ApiTypings.Proofs.Storage.Location
import ApiTypings.Storage.Artifact

/-!
File systems that keep to the file they are asked about.

An operation on a file takes effect or fails, and in neither case it touches another file. This is
all that one can rely on whatever the rights of the user and the state of the device: nothing is
said here about when an operation fails, and a failed one may leave anything of its own file. The
only file that must not suffer from a failure is the target of a move.

The laws are about locations in standard form, which are the only ones that texts are stored at.
-/

namespace ApiTypings

namespace Storing

variable {σ ε α β : Type}

/-! ### Computations in sequence -/

theorem on_bind (x : Storing σ ε α) (f : α → Storing σ ε β) (d : σ) :
    (x >>= f).on d = match x.on d with
      | (.ok a, d') => (f a).on d'
      | (.error e, d') => (.error e, d') := by
  change ExceptT.bindCont f (x.on d).1 (x.on d).2 = _
  rcases x.on d with ⟨_ | a, d'⟩ <;> rfl

@[simp] theorem on_pure (a : α) (d : σ) : (pure a : Storing σ ε α).on d = (.ok a, d) := rfl

@[simp] theorem on_get_bind (f : σ → Storing σ ε α) (d : σ) :
    ((get : Storing σ ε σ) >>= f).on d = (f d).on d := rfl

@[simp] theorem on_modify (f : σ → σ) (d : σ) :
    (modify f : Storing σ ε PUnit).on d = (.ok (), f d) := rfl

@[simp] theorem on_attempt (x : Storing σ ε α) (d : σ) :
    (attempt x).on d = (.ok (x.on d).1, (x.on d).2) := rfl

end Storing

/-- The files of a file system: the place that a location in standard form leads to, and the content
of the file at a place in some state. -/
structure FileView (σ : Type) where
  Place : Type
  place : String → Place
  file? : σ → Place → Option ByteArray

namespace FileView

variable {σ ε : Type} {v : FileView σ} {s : Surroundings} {location : String} {d d' d'' : σ}

/-- Two states with the same files. -/
def SameFiles (v : FileView σ) (d d' : σ) : Prop := ∀ p, v.file? d' p = v.file? d p

/-- Two states with the same files at all places but one. -/
def SameBut (v : FileView σ) (p : v.Place) (d d' : σ) : Prop :=
  ∀ q, q ≠ p → v.file? d' q = v.file? d q

theorem SameFiles.refl (d : σ) : v.SameFiles d d := fun _ => rfl

theorem SameFiles.trans (h : v.SameFiles d d') (h' : v.SameFiles d' d'') : v.SameFiles d d'' :=
  fun p => (h' p).trans (h p)

theorem SameFiles.sameBut (h : v.SameFiles d d') (p : v.Place) : v.SameBut p d d' :=
  fun q _ => h q

theorem SameBut.refl {p : v.Place} (d : σ) : v.SameBut p d d := fun _ _ => rfl

theorem SameBut.trans {p : v.Place} (h : v.SameBut p d d') (h' : v.SameBut p d' d'') :
    v.SameBut p d d'' :=
  fun q hq => (h' q hq).trans (h q hq)

/-- A file that was not there before and is gone again leaves nothing behind. -/
theorem SameBut.sameFiles {p : v.Place} (h : v.SameBut p d d') (hbefore : v.file? d p = none)
    (hafter : v.file? d' p = none) : v.SameFiles d d' := by
  intro q
  by_cases hq : q = p
  · rw [hq, hafter, hbefore]
  · exact h q hq

variable [FileSystem σ ε]

/-- A file at a location, if there is one, is found. -/
def Sees (v : FileView σ) (s : Surroundings) (location : String) (d : σ) : Prop :=
  v.file? d (v.place location) ≠ none → FileSystem.exists? d s.directory location = true

/-- A file system whose operations take effect or fail, without effect on other files. A file that
comes into being is found at the location at which it was created as long as it is there. -/
structure Orderly (v : FileView σ) (s : Surroundings) : Prop where
  draft_ne {location : String} {names : List String} : Location.Spells location names →
    v.place (Artifact.draft location) ≠ v.place location
  makeParents {location : String} {names : List String} {d d' : σ} {r : Except ε Unit} :
    Location.Spells location names → (FileSystem.makeParents s location).on d = (r, d') →
    v.SameFiles d d'
  openFile {location : String} {names : List String} {d d' : σ} {r : Except ε Unit} :
    Location.Spells location names → (FileSystem.openFile s location).on d = (r, d') →
    v.SameBut (v.place location) d d'
  openFile_ok {location : String} {names : List String} {d d' : σ} :
    Location.Spells location names → (FileSystem.openFile s location).on d = (.ok (), d') →
    v.file? d' (v.place location) = some ByteArray.empty
  openFile_sees {location : String} {names : List String} {d d' : σ} {r : Except ε Unit} :
    Location.Spells location names → (FileSystem.openFile s location).on d = (r, d') →
    v.file? d (v.place location) = none → v.Sees s location d'
  extend {location : String} {names : List String} {bytes : ByteArray} {d d' : σ}
    {r : Except ε Unit} :
    Location.Spells location names → (FileSystem.extend s location bytes).on d = (r, d') →
    v.SameBut (v.place location) d d'
  extend_ok {location : String} {names : List String} {bytes held : ByteArray} {d d' : σ} :
    Location.Spells location names → (FileSystem.extend s location bytes).on d = (.ok (), d') →
    v.file? d (v.place location) = some held →
    v.file? d' (v.place location) = some (held ++ bytes)
  extend_sees {location : String} {names : List String} {bytes : ByteArray} {d d' : σ}
    {r : Except ε Unit} :
    Location.Spells location names → (FileSystem.extend s location bytes).on d = (r, d') →
    v.Sees s location d → v.Sees s location d'
  rename_error {source target : String} {names names' : List String} {d d' : σ} {e : ε} :
    Location.Spells source names → Location.Spells target names' →
    (FileSystem.rename s source target).on d = (.error e, d') →
    v.SameBut (v.place source) d d' ∧ (v.Sees s source d → v.Sees s source d')
  rename_ok {source target : String} {names names' : List String} {d d' : σ}
    {bytes : ByteArray} :
    Location.Spells source names → Location.Spells target names' →
    v.place source ≠ v.place target →
    (FileSystem.rename s source target).on d = (.ok (), d') →
    v.file? d (v.place source) = some bytes →
    v.file? d' (v.place target) = some bytes ∧ v.file? d' (v.place source) = none ∧
      FileSystem.exists? d' s.directory source = false ∧
      ∀ p, p ≠ v.place source → p ≠ v.place target → v.file? d' p = v.file? d p
  removeFile {location : String} {names : List String} {d d' : σ} {r : Except ε Unit} :
    Location.Spells location names → (FileSystem.removeFile s location).on d = (r, d') →
    v.SameBut (v.place location) d d'
  removeFile_ok {location : String} {names : List String} {d d' : σ} :
    Location.Spells location names → (FileSystem.removeFile s location).on d = (.ok (), d') →
    v.file? d' (v.place location) = none

end FileView

/-! ### Refused operations -/

/-- A file system with a plan of refusals: an operation that is refused fails at once, for a reason
that the plan gives. -/
structure Refusing (σ ε : Type) where
  state : σ
  plan : List (Option ε)

namespace Refusing

variable {σ ε α : Type}

/-- An operation, unless the plan refuses it. -/
def perform (x : Storing σ ε α) : Storing (Refusing σ ε) ε α :=
  ExceptT.mk fun (t : Refusing σ ε) =>
    match t.plan with
    | some e :: rest => (.error e, ⟨t.state, rest⟩)
    | plan => ((x.on t.state).1, ⟨(x.on t.state).2, plan.tail⟩)

instance [FileSystem σ ε] : FileSystem (Refusing σ ε) ε where
  message := FileSystem.message σ
  fault? := FileSystem.fault? σ
  read t := FileSystem.read t.state
  exists? t := FileSystem.exists? t.state
  makeParents s location := perform (FileSystem.makeParents s location)
  openFile s location := perform (FileSystem.openFile s location)
  extend s location bytes := perform (FileSystem.extend s location bytes)
  rename s source target := perform (FileSystem.rename s source target)
  removeFile s location := perform (FileSystem.removeFile s location)

theorem perform_cases {x : Storing σ ε α} {t t' : Refusing σ ε} {r : Except ε α}
    (h : (perform x).on t = (r, t')) :
    ((∃ e, r = .error e) ∧ t'.state = t.state) ∨ x.on t.state = (r, t'.state) := by
  change (match t.plan with
    | some e :: rest => (.error e, ⟨t.state, rest⟩)
    | plan => ((x.on t.state).1, ⟨(x.on t.state).2, plan.tail⟩)) = (r, t') at h
  split at h <;> obtain ⟨rfl, rfl⟩ := Prod.mk.inj h
  · exact .inl ⟨⟨_, rfl⟩, rfl⟩
  · exact .inr rfl

/-- What an operation does to a state, it does when it may be refused, if doing nothing is within
what it does. -/
theorem perform_keeps {P : σ → σ → Prop} (hnothing : ∀ d, P d d) {x : Storing σ ε α}
    {t t' : Refusing σ ε} {r : Except ε α} (hx : x.on t.state = (r, t'.state) → P t.state t'.state)
    (h : (perform x).on t = (r, t')) : P t.state t'.state := by
  rcases perform_cases h with ⟨-, hstate⟩ | hdone
  · rw [hstate]
    exact hnothing t.state
  · exact hx hdone

theorem perform_ok {x : Storing σ ε α} {t t' : Refusing σ ε} {a : α}
    (h : (perform x).on t = (.ok a, t')) : x.on t.state = (.ok a, t'.state) := by
  rcases perform_cases h with ⟨⟨e, he⟩, -⟩ | hdone
  · cases he
  · exact hdone

/-- The files of a file system that refuses operations. -/
def view (v : FileView σ) : FileView (Refusing σ ε) := ⟨v.Place, v.place, fun t => v.file? t.state⟩

variable [FileSystem σ ε] {v : FileView σ} {s : Surroundings}

/-- Refusals are without any effect, so they do no harm to an orderly file system. -/
theorem orderly (h : v.Orderly s) : (view v : FileView (Refusing σ ε)).Orderly s where
  draft_ne := h.draft_ne
  makeParents hspells := perform_keeps (P := v.SameFiles) .refl (h.makeParents hspells)
  openFile hspells := perform_keeps (P := v.SameBut _) .refl (h.openFile hspells)
  openFile_ok hspells hdone := h.openFile_ok hspells (perform_ok hdone)
  openFile_sees {location _ _ _ _} hspells :=
    perform_keeps (P := fun d d' => v.file? d (v.place location) = none → v.Sees s location d')
      (fun _ hnone hsome => absurd hnone hsome) (h.openFile_sees hspells)
  extend hspells := perform_keeps (P := v.SameBut _) .refl (h.extend hspells)
  extend_ok hspells hdone := h.extend_ok hspells (perform_ok hdone)
  extend_sees {location _ _ _ _ _} hspells :=
    perform_keeps (P := fun d d' => v.Sees s location d → v.Sees s location d') (fun _ => id)
      (h.extend_sees hspells)
  rename_error {source _ _ _ _ _ _} hsource htarget :=
    perform_keeps (P := fun d d' => v.SameBut (v.place source) d d' ∧
      (v.Sees s source d → v.Sees s source d')) (fun _ => ⟨.refl _, id⟩)
      (h.rename_error hsource htarget)
  rename_ok hsource htarget hne hdone := h.rename_ok hsource htarget hne (perform_ok hdone)
  removeFile hspells := perform_keeps (P := v.SameBut _) .refl (h.removeFile hspells)
  removeFile_ok hspells hdone := h.removeFile_ok hspells (perform_ok hdone)

end Refusing

end ApiTypings
