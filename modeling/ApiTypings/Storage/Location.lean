import ApiTypings.Fault
import ApiTypings.Storage.Surroundings
import ApiTypings.Text.Blank

/-!
Locations of files, as they are written.

A location that a user gives may be relative, start at a home directory and mention variables. Its
standard form starts at the root and has no empty component, no component that stays where it is
and none that goes back; it is the form under which files are read and written and which messages
show.
-/

namespace ApiTypings

namespace Location

/-! ### Expansion -/

/-- The text without slashes at its end. -/
def trimSlashes (cs : List Char) : List Char := (cs.reverse.dropWhile (· = '/')).reverse

/-- A home directory in front of a location stands for the directory itself. The location of an
unknown user is left as it is. -/
def expandHome (s : Surroundings) (location : String) : String :=
  match location.toList with
  | '~' :: rest =>
    let name := rest.takeWhile (· ≠ '/')
    let tail := rest.dropWhile (· ≠ '/')
    match s.home? (String.ofList name) with
    | none => location
    | some home =>
      let expanded := trimSlashes home.toList ++ tail
      if expanded.isEmpty then "/" else String.ofList expanded
  | _ => location

/-- The characters of a variable's name outside braces. -/
def isNameChar (c : Char) : Bool := c.isAlphanum || c == '_'

/-- The name of the variable that is mentioned behind a dollar sign, and what follows it. -/
def variableName? (cs : List Char) : Option (List Char × List Char) :=
  match cs with
  | '\x7b' :: inner =>
    match inner.dropWhile (· ≠ '\x7d') with
    | _ :: rest => some (inner.takeWhile (· ≠ '\x7d'), rest)
    | [] => none
  | _ =>
    match cs.takeWhile isNameChar with
    | [] => none
    | name => some (name, cs.dropWhile isNameChar)

theorem length_lt_of_variableName? {cs name rest : List Char}
    (h : variableName? cs = some (name, rest)) : rest.length < cs.length := by
  unfold variableName? at h
  split at h
  · next inner =>
      split at h
      · next c tail hd =>
          have hs := (List.dropWhile_sublist (fun c => decide (c ≠ '\x7d')) (l := inner)).length_le
          rw [hd] at hs
          simp only [Option.some.injEq, Prod.mk.injEq] at h
          simp only [← h.2, List.length_cons] at hs ⊢
          omega
      · simp at h
  · have hl := congrArg List.length (@List.takeWhile_append_dropWhile _ isNameChar cs)
    simp only [List.length_append] at hl
    split at h
    · simp at h
    · next hne =>
        simp only [Option.some.injEq, Prod.mk.injEq] at h
        have hpos := List.length_pos_iff.2 (fun e => hne e)
        rw [← h.2]
        omega

/-- The characters with every mention of a known variable replaced by its value. A mention of an
unknown one stays, and values are not searched for further mentions. -/
def expandVariableChars (s : Surroundings) : List Char → List Char
  | [] => []
  | c :: rest =>
    if c = '$' then
      match _ : variableName? rest with
      | none => c :: expandVariableChars s rest
      | some (name, after) =>
        let mention := c :: rest.take (rest.length - after.length)
        let value := ((s.valueOf? (String.ofList name)).map String.toList).getD mention
        value ++ expandVariableChars s after
    else c :: expandVariableChars s rest
termination_by cs => cs.length
decreasing_by
  · simp
  · have := length_lt_of_variableName? (by assumption)
    simp only [List.length_cons]
    omega
  · simp

def expandVariables (s : Surroundings) (location : String) : String :=
  String.ofList (expandVariableChars s location.toList)

/-! ### The standard form -/

/-- Whether a location starts at the root. -/
def isAbsolute (location : String) : Bool := location.toList.head? == some '/'

/-- A location as seen from a directory. -/
def join (directory location : String) : String :=
  if isAbsolute location then location
  else if directory = "" ∨ directory.toList.getLast? = some '/' then directory ++ location
  else directory ++ "/" ++ location

/-- The components of a location that say something. -/
def parts (location : String) : List String := (Text.pieces '/' location).filter (· ≠ "")

/-- One step from the root downwards: a component that goes back removes the one before it. -/
def descend (above : List String) (part : String) : List String :=
  if part = "." then above else if part = ".." then above.dropLast else above ++ [part]

/-- The components from the root to a location that starts there. -/
def fold (location : String) : List String := (parts location).foldl descend []

/-- The components from the root to everything that is passed on the way to a location. -/
def passed (directory location : String) : List (List String) :=
  let ps := parts (join directory location)
  (List.range (ps.length + 1)).map fun n => (ps.take n).foldl descend []

/-- The slashes in front: exactly two of them are kept, for they may have a meaning of their own. -/
def root (location : String) : String :=
  match location.toList with
  | '/' :: '/' :: '/' :: _ => "/"
  | '/' :: '/' :: _ => "//"
  | _ => "/"

/-- A location in its standard form. -/
def absolute (s : Surroundings) (location : String) : String :=
  let whole := join s.directory location
  root whole ++ Text.join "/" (fold whole)

/-- A location that a user gave, or another one if it is blank. -/
def choose (location fallback : String) : String :=
  let given := Text.trim location
  if given = "" then fallback else given

/-- The standard form of a location that a user gave, or of another one if it is blank. -/
def normalize (s : Surroundings) (location fallback : String) : String :=
  absolute s (expandVariables s (expandHome s (choose location fallback)))

/-- Whether a location mentions the home directory of a user by a name that nobody can have. -/
def mentionsNobody (location : String) : Bool :=
  match location.toList with
  | '~' :: rest => (rest.takeWhile (· ≠ '/')).contains '\x00'
  | _ => false

/-- The standard form of a location, unless it mentions a user that cannot even be looked for. -/
def resolve (s : Surroundings) (location fallback : String) : Except Fault String :=
  if mentionsNobody (choose location fallback) then
    .error (.unusableLocation (choose location fallback))
  else .ok (normalize s location fallback)

/-- A location that can be resolved resolves to its standard form. -/
theorem resolve_eq_ok {s : Surroundings} {location fallback whole : String}
    (h : resolve s location fallback = .ok whole) : whole = normalize s location fallback := by
  unfold resolve at h
  split at h
  · simp at h
  · exact (Except.ok.inj h).symm

end Location

end ApiTypings
