/-!
What can go wrong with a malformed API description or with malformed settings.

Most defects of a description degrade into annotated output. The faults below are the ones that end
the work on it: a value that lacks what is asked of it, a position at which nothing stands, a node
that is not ready, a location that no file can have, a text beyond the limits of reading, and a
circle of inheritance. Settings of logging that make no sense end a call as well.
-/

namespace ApiTypings

/-- Why an API description cannot be processed, or settings cannot be acted upon. -/
inductive Fault where
  /-- An object lacks a field that every object of its sort has. -/
  | missingField (name : String)
  /-- A field is asked of a value that has no fields. -/
  | notAnObject
  /-- A text is to be taken apart, changed or encoded, and the value is no text. -/
  | notText
  /-- A value is used as a record, and it is not an object. -/
  | notARecord
  /-- A value is to be matched against or joined with text, and it is no text. -/
  | notJoinable
  /-- A list or an object is used as a name. -/
  | notAName
  /-- Nothing stands at this position. -/
  | noSuchPosition (position : Int)
  /-- A node is rendered before its exclusions were resolved. -/
  | unresolved (name : String)
  /-- A file is sought at a location that no file can have. -/
  | unusableLocation (location : String)
  /-- A text nests values deeper than is read. -/
  | tooDeep
  /-- An integer has more digits than are read. -/
  | tooManyDigits (count : Nat)
  /-- A setting is of another kind than is asked for. -/
  | wrongKind (expected : String)
  /-- A text is read as an integer and does not spell one. -/
  | notAnInteger (text : String)
  /-- An infinite number is read as an integer. -/
  | infinite
  /-- A layout of log lines has no slot. -/
  | noSlot (template : String)
  /-- Types extend each other in a circle; the chain ends with the repeated name. -/
  | cycle (chain : List String)
  deriving DecidableEq, Repr

namespace Fault

/-- The message of a fault that the program itself reports. -/
def message? : Fault → Option String
  | .cycle chain => some ("Cyclic inheritance: " ++ " -> ".intercalate chain)
  | _ => none

/-- What a fault means, in words. -/
def description : Fault → String
  | .missingField name => "the field '" ++ name ++ "' is missing"
  | .notAnObject => "an object is expected where there is another value"
  | .notText => "a text is expected where there is another value"
  | .notARecord => "a record is expected where there is another value"
  | .notJoinable => "a name or a type is no text"
  | .notAName => "a list or an object stands where a name belongs"
  | .noSuchPosition position => "nothing stands at position " ++ toString position
  | .unresolved name => "the exclusions of '" ++ name ++ "' are not resolved"
  | .unusableLocation location => "no file can have the location '" ++ location ++ "'"
  | .tooDeep => "values are nested too deep"
  | .tooManyDigits count => "an integer has " ++ toString count ++ " digits"
  | .wrongKind expected => "a setting is no " ++ expected
  | .notAnInteger text => "'" ++ text ++ "' is no integer"
  | .infinite => "an infinite number is no integer"
  | .noSlot template => "the layout '" ++ template ++ "' has no slot"
  | .cycle chain => "types extend each other: " ++ " -> ".intercalate chain

end Fault

end ApiTypings
