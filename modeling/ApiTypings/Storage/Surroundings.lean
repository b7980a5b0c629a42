import ApiTypings.Text.Split

/-!
The surroundings of the program: what it is told by the system that it runs in, and in which the
locations that a user writes are understood.
-/

namespace ApiTypings

/-- What locations are read in: the working directory, the variables with their values, the home
directory of each user, and the user in whose name the program runs. -/
structure Surroundings where
  directory : String
  bindings : List (String × String)
  homes : List (String × String)
  user : String
  deriving Repr, Inhabited

namespace Surroundings

/-- The value of a variable. -/
def valueOf? (s : Surroundings) (name : String) : Option String := s.bindings.lookup name

/-- The home directory of a user, by name; without a name it is that of the current user, unless a
variable says otherwise. -/
def home? (s : Surroundings) (name : String) : Option String :=
  if name = "" then s.valueOf? "HOME" <|> s.homes.lookup s.user else s.homes.lookup name

/-- The variables listed in a text, each as a name and a value with an equals sign between them, and
the character zero behind every one. -/
def variablesOfText (text : String) : List (String × String) :=
  (Text.pieces '\x00' text).filterMap fun entry =>
    match entry.toList.dropWhile (· ≠ '=') with
    | _ :: value => some (String.ofList (entry.toList.takeWhile (· ≠ '=')), String.ofList value)
    | [] => none

/-- The home directories listed in a text, one user a line with seven fields: the first one is the
name and the last but one the directory. -/
def homesOfText (text : String) : List (String × String) :=
  (Text.pieces '\n' text).filterMap fun line =>
    match Text.pieces ':' line with
    | [name, _, _, _, _, home, _] => some (name, home)
    | _ => none

end Surroundings

end ApiTypings
