import ApiTypings.Proofs.TypeText.Depth
import ApiTypings.Proofs.TypeText.Renaming

/-!
The grammar of type texts.

A type term is a name, a container of alternatives, a callback whose parameters are alternatives,
or a generic that is none of these and whose argument text is not read. Terms are written with bars
between alternatives and commas between parameters. Their translation says, on the term itself, how
each is declared, so that reading a type text can be held against it. Terms that could not be
written are not built: names and argument texts come with what keeps them apart from what surrounds
them.
-/

namespace ApiTypings.TypeText

/-! ### Terms -/

/-- A name that is a type by itself. Once corrected there is nothing left to correct in it. -/
structure Atom where
  text : List Char
  plain : Plain text
  settled : ¬NamesMatrix (rename text)

/-- A dotted identifier in which there is nothing to correct. -/
def Atom.ofDottedName (text : List Char) (hdotted : isDottedName text = true)
    (hsettled : ¬NamesMatrix text) : Atom where
  text := text
  plain := plain_of_isDottedName hdotted
  settled := by rwa [rename_of_not_namesMatrix hsettled]

/-- The collective types, whose elements are translated. -/
inductive Container where
  | array
  | dictionary
  deriving DecidableEq, Repr

def Container.name : Container → String
  | .array => "Array"
  | .dictionary => "Dictionary"

/-- The bases of the generics that are read. -/
def readBases : List String := ["Array", "Dictionary", "Callback"]

/-- A generic whose argument text is kept as it is. -/
structure Foreign where
  base : List Char
  raw : List Char
  dotted : isDottedName base = true
  foreign : base ∉ readBases.map String.toList
  nested : Nested raw
  base_settled : ¬NamesMatrix base
  raw_settled : ¬NamesMatrix raw

mutual

inductive TypeTerm where
  | atom (a : Atom)
  | container (c : Container) (element : TypeUnion)
  | callback (parameters : List TypeUnion)
  | foreign (g : Foreign)

/-- One or more alternatives. -/
inductive TypeUnion where
  | single (t : TypeTerm)
  | either (t : TypeTerm) (others : TypeUnion)

end

/-! ### Spelling -/

variable (name : Atom → List Char)

mutual

/-- The text of a term whose atoms are written by the names given. -/
def TypeTerm.spell : TypeTerm → List Char
  | .atom a => name a
  | .container c element => enclosed c.name.toList element.spell
  | .callback parameters => enclosed "Callback".toList (joinArguments (spellAll parameters))
  | .foreign g => enclosed g.base g.raw

def TypeUnion.spell : TypeUnion → List Char
  | .single t => t.spell
  | .either t others => t.spell ++ '|' :: others.spell

def spellAll : List TypeUnion → List (List Char)
  | [] => []
  | u :: rest => u.spell :: spellAll rest

end

/-- A term as it is written in a description. -/
def TypeTerm.print (t : TypeTerm) : String := String.ofList (t.spell Atom.text)

example :
    let number := Atom.ofDottedName "Number".toList (by decide) (by decide)
    let view := Atom.ofDottedName "Ti.UI.View".toList (by decide) (by decide)
    let numbers := TypeTerm.container .array (.single (.atom number))
    (TypeTerm.callback [.either numbers (.single (.atom view)), .single numbers]).print =
      "Callback<Array<Number>|Ti.UI.View, Array<Number>>" := by
  decide

/-! ### Translation -/

/-- The name of an atom once it is corrected. -/
def Atom.corrected (a : Atom) : List Char := rename a.text

/-- How an atom is declared. -/
def Atom.translation (a : Atom) : String :=
  let name := String.ofList a.corrected
  if name ∈ ["Boolean", "Function", "Number", "String"] then Unicode.lower name
  else if name ∈ ["Object", "Dictionary"] then "any"
  else if name = "Callback" then "(...args: any[]) => void"
  else if name = "Array" then "Array<any> /* ERROR: untyped array */"
  else name

/-- Whether parameters are those of a callback that takes anything: one of no particular type. -/
def takesAnything : List TypeUnion → Bool
  | [.single (.atom a)] => a.text = "Object".toList || a.text = "Dictionary".toList
  | _ => false

/-- Parameters with the types given, named by their positions. -/
def numberedParameters (types : List String) : List String :=
  types.mapIdx fun i type => "arg" ++ toString (i + 1) ++ ": " ++ type

mutual

/-- How a term is declared. -/
def TypeTerm.translation : TypeTerm → String
  | .atom a => a.translation
  | .container c element => c.name ++ "<" ++ element.translation ++ ">"
  | .callback parameters =>
    if takesAnything parameters then "(...args: any[]) => void"
    else "(" ++ Text.join ", " (numberedParameters (translations parameters)) ++ ") => void"
  | .foreign g => String.ofList g.base ++ "<" ++ String.ofList g.raw ++ ">"

def TypeUnion.translation : TypeUnion → String
  | .single t => t.translation
  | .either t others => t.translation ++ "|" ++ others.translation

def translations : List TypeUnion → List String
  | [] => []
  | u :: rest => u.translation :: translations rest

end

end ApiTypings.TypeText
