import ApiTypings.Fault
import ApiTypings.Storage.Location
import ApiTypings.Text.Quoted

/-!
The files and directories that a program sees.

A disk says what stands at each place, a place being the list of names that leads to it from the
root. Locations are followed one name at a time, as an operating system does it: every name but the
last one has to lead to a directory. Each operation either takes effect or fails with a cause and
leaves the disk as it was.
-/

namespace ApiTypings

/-- The names that lead to a file or directory from the root. -/
abbrev Place := List String

/-- What may stand at a place. -/
inductive DiskEntry where
  | directory
  | file (bytes : ByteArray)
  deriving Inhabited

instance : DecidableEq DiskEntry
  | .directory, .directory => isTrue rfl
  | .directory, .file _ => isFalse nofun
  | .file _, .directory => isFalse nofun
  | .file a, .file b =>
    match ByteArray.decEq a b with
    | isTrue h => isTrue (congrArg DiskEntry.file h)
    | isFalse h => isFalse fun e => h (DiskEntry.file.inj e)

/-- Why an operation on files fails: because of what stands on the disk, or of how a location is
written. Missing rights, a full device and the like occur on other file systems. -/
inductive DiskCause where
  | missing
  | present
  | notDirectory
  | isDirectory
  | busy
  | nameTooLong
  /-- The location has a character that no location can have. -/
  | unusable
  deriving DecidableEq, Repr

namespace DiskCause

/-- The number and the text by which messages speak of a cause. -/
def description : DiskCause → Nat × String
  | .missing => (2, "No such file or directory")
  | .present => (17, "File exists")
  | .notDirectory => (20, "Not a directory")
  | .isDirectory => (21, "Is a directory")
  | .busy => (16, "Device or resource busy")
  | .nameTooLong => (36, "File name too long")
  | .unusable => (22, "Invalid argument")

end DiskCause

/-- A failed operation: the cause and the locations it was about. -/
structure DiskError where
  cause : DiskCause
  location : String
  target : Option String
  deriving DecidableEq, Repr

namespace DiskError

def message (e : DiskError) : String :=
  let (number, text) := e.cause.description
  let target := match e.target with | some t => " -> " ++ Text.quoted t | none => ""
  "[Errno " ++ toString number ++ "] " ++ text ++ ": " ++ Text.quoted e.location ++ target

/-- The fault that a failure amounts to, if its location could not even be looked for. -/
def fault? (e : DiskError) : Option Fault :=
  if e.cause = .unusable then some (.unusableLocation e.location) else none

end DiskError

/-- The files and directories below the root. -/
structure Disk where
  entries : List (Place × DiskEntry)
  deriving Inhabited

namespace Disk

/-- A disk without any file. -/
def empty : Disk := ⟨[]⟩

/-- What stands at a place. The root is always a directory. -/
def look (d : Disk) (p : Place) : Option DiskEntry :=
  if p = [] then some .directory else d.entries.lookup p

/-- The disk with a new entry at a place. -/
def put (d : Disk) (p : Place) (e : DiskEntry) : Disk := ⟨(p, e) :: d.entries.filter (·.1 ≠ p)⟩

/-- The disk without the entry at a place. -/
def erase (d : Disk) (p : Place) : Disk := ⟨d.entries.filter (·.1 ≠ p)⟩

/-- The bytes of the file at a place. -/
def file? (d : Disk) (p : Place) : Option ByteArray :=
  match d.look p with
  | some (.file bytes) => some bytes
  | _ => none

/-- The files of a disk with their bytes. -/
def files (d : Disk) : List (Place × ByteArray) :=
  d.entries.filterMap fun e => match e.2 with | .file bytes => some (e.1, bytes) | .directory => none

/-! ### Look-ups after a change -/

theorem lookup_filter_ne (entries : List (Place × DiskEntry)) (p q : Place) :
    (entries.filter (·.1 ≠ p)).lookup q = if q = p then none else entries.lookup q := by
  induction entries with
  | nil => simp
  | cons e rest ih =>
      obtain ⟨k, v⟩ := e
      by_cases hk : k = p
      · subst hk
        by_cases hq : q = k
        · simpa [hq] using ih
        · have hb : (q == k) = false := by simpa using hq
          simpa [hq, List.lookup_cons, hb] using ih
      · by_cases hq : q = k
        · subst hq
          simp [hk]
        · have hb : (q == k) = false := by simpa using hq
          simpa [hk, List.lookup_cons, hb] using ih

theorem look_put (d : Disk) {p : Place} (hp : p ≠ []) (e : DiskEntry) (q : Place) :
    (d.put p e).look q = if q = p then some e else d.look q := by
  by_cases hq : q = []
  · subst hq
    simp [look, Ne.symm hp]
  · by_cases h : q = p
    · subst h
      simp [look, put, hq]
    · have hb : (q == p) = false := by simpa using h
      simp only [look, put, hq, h, if_false, List.lookup_cons, hb]
      rw [lookup_filter_ne, if_neg h]

theorem look_erase (d : Disk) {p : Place} (hp : p ≠ []) (q : Place) :
    (d.erase p).look q = if q = p then none else d.look q := by
  by_cases hq : q = []
  · subst hq
    simp [look, Ne.symm hp]
  · simp only [look, erase, hq, if_false]
    exact lookup_filter_ne d.entries p q

/-! ### Following a location -/

/-- The longest name that a directory can hold, in bytes. -/
def longestName : Nat := 255

/-- The longest location that can be followed, in bytes. -/
def longestLocation : Nat := 4095

/-- Follows names from a place on. Only the last one may lead to nothing. -/
def follow (d : Disk) (here : Place) : List String → Except DiskCause Place
  | [] => .ok here
  | part :: rest =>
    match d.look here with
    | none => .error .missing
    | some (.file _) => .error .notDirectory
    | some .directory =>
      if part = "." then follow d here rest
      else if part = ".." then follow d here.dropLast rest
      else if longestName < part.utf8ByteSize then .error .nameTooLong
      else follow d (here ++ [part]) rest

/-- Whether a location ends in a slash, and so can only be that of a directory. -/
def asksDirectory (location : String) : Bool := location.toList.getLast? == some '/'

/-- The place of a location, which is relative to a directory unless it starts at the root. -/
def locate (d : Disk) (directory location : String) : Except DiskCause Place :=
  if location = "" then .error .missing
  else if '\x00' ∈ location.toList then .error .unusable
  else if longestLocation < location.utf8ByteSize then .error .nameTooLong
  else if Location.isAbsolute location then follow d [] (Location.parts location)
  else follow d (Location.fold directory) (Location.parts location)

/-- What stands at a location, if that can be told. -/
def lookAt (d : Disk) (directory location : String) : Except DiskCause (Option DiskEntry) := do
  let place ← d.locate directory location
  match d.look place with
  | some (.file bytes) =>
    if asksDirectory location then .error .notDirectory else pure (some (.file bytes))
  | other => pure other

/-- Whether there is a file at a location. -/
def isFile (d : Disk) (directory location : String) : Bool :=
  match d.lookAt directory location with
  | .ok (some (.file _)) => true
  | _ => false

/-- Whether there is anything at a location. -/
def exists? (d : Disk) (directory location : String) : Bool :=
  match d.lookAt directory location with
  | .ok (some _) => true
  | _ => false

/-- The bytes of the file at a location. -/
def read (d : Disk) (directory location : String) : Except DiskError ByteArray :=
  match d.lookAt directory location with
  | .ok (some (.file bytes)) => .ok bytes
  | .ok (some .directory) => .error ⟨.isDirectory, location, none⟩
  | .ok none => .error ⟨.missing, location, none⟩
  | .error cause => .error ⟨cause, location, none⟩

/-- The place of a file that is opened for writing, whether or not it exists. -/
def writable (d : Disk) (directory location : String) : Except DiskError Place :=
  match d.locate directory location with
  | .error cause => .error ⟨cause, location, none⟩
  | .ok place =>
    if asksDirectory location ∨ d.look place = some .directory then
      .error ⟨.isDirectory, location, none⟩
    else .ok place

end Disk

end ApiTypings
