import ApiTypings.Json.Display
import ApiTypings.TypeText.Cut
import ApiTypings.TypeText.Form
import ApiTypings.Unicode.CharClass

/-!
Reading type expressions into forms.

A type expression is a name, a list of alternatives, an object that wraps an expression in its
field `type`, or any other object, whose values are alternatives. A name may be generic: the
arguments of `Callback` are parameters, and those of the two containers are alternatives again.
Every other generic name is kept as it is.
-/

namespace ApiTypings.TypeText

/-- Names that would start with a digit, and their corrections. -/
def renames : List (String × String) := [("2DMatrix", "Matrix2D"), ("3DMatrix", "Matrix3D")]

/-- A name with the corrections made wherever they apply. -/
def rename (name : List Char) : List Char :=
  renames.foldl (fun name r => Text.replaceChars r.1.toList r.2.toList name) name

/-- The names with a meaning of their own. -/
def simpleForm? (name : String) : Option TypeForm :=
  if name = "Boolean" ∨ name = "Function" ∨ name = "Number" ∨ name = "String" then
    some (.named (Unicode.lower name))
  else if name = "Object" ∨ name = "Dictionary" then some .any
  else if name = "Callback" ∨ name = "Callback<Object>" ∨ name = "Callback<Dictionary>" then
    some .anyCallback
  else if name = "Array<Dictionary>" then some .anyArray
  else if name = "Array" then some .untypedArray
  else none

def isGenericStart (c : Char) : Bool := c == '_' || c.isAlpha

def isGenericChar (c : Char) : Bool := c == '.' || Unicode.isWordChar c

/-- The base and the argument text of a generic name: a dotted identifier, then everything between
the first `<` and a `>` at the very end. -/
def generic? (name : List Char) : Option (List Char × List Char) :=
  match name with
  | [] => none
  | c :: rest =>
    if isGenericStart c then
      match rest.dropWhile isGenericChar with
      | '<' :: inner =>
        if inner.getLast? = some '>' then
          some (c :: rest.takeWhile isGenericChar, inner.dropLast)
        else none
      | _ => none
    else none

theorem length_rename_le (name : List Char) : (rename name).length ≤ name.length := by
  simp only [rename, renames, List.foldl_cons, List.foldl_nil]
  exact Nat.le_trans (Text.length_replaceChars_of_eq (by decide) _)
    (Text.length_replaceChars_of_eq (by decide) _)

/-- A generic name is its base with its argument text in angle brackets. -/
theorem eq_of_generic? {name base inner : List Char}
    (h : generic? name = some (base, inner)) : name = base ++ '<' :: (inner ++ ['>']) := by
  unfold generic? at h
  split at h
  · simp at h
  next c rest =>
    split at h
    · split at h
      next arguments hdrop =>
        split at h
        next hlast =>
          obtain ⟨front, rfl⟩ := List.getLast?_eq_some_iff.1 hlast
          rw [List.dropLast_concat] at h
          obtain ⟨rfl, rfl⟩ := Prod.mk.inj (Option.some.inj h)
          rw [List.cons_append, ← hdrop, List.takeWhile_append_dropWhile]
        · simp at h
      · simp at h
    · simp at h

/-- What a name is on the outside: a form by itself, or a generic around names still to be read.
A parameter or an element is given by the texts of its alternatives. -/
inductive NameShape where
  | leaf (form : TypeForm)
  | callback (parameters : List (List (List Char)))
  | container (base : String) (alternatives : List (List Char))

/-- The names that a shape leaves to be read. -/
def NameShape.parts : NameShape → List (List Char)
  | .leaf _ => []
  | .callback parameters => parameters.flatten
  | .container _ alternatives => alternatives

/-- The shape of a corrected name. -/
def shapeOfClean (name : List Char) : NameShape :=
  match simpleForm? (String.ofList name), generic? name with
  | some form, _ => .leaf form
  | none, none => .leaf (.named (String.ofList name))
  | none, some (base, inner) =>
    if base = "Callback".toList then .callback ((splitArguments inner).map (cutTopLevel '|'))
    else if base = "Array".toList ∨ base = "Dictionary".toList then
      .container (String.ofList base) (cutTopLevel '|' inner)
    else .leaf (.named (String.ofList name))

/-- The shape of a name: it is trimmed, corrected, looked up, and taken apart if it is generic. -/
def shape (name : List Char) : NameShape := shapeOfClean (rename (Text.trimChars name))

/-- What a corrected name can be: one with a meaning of its own, a type by itself, or a generic
whose argument text is taken apart. -/
theorem shapeOfClean_cases (name : List Char) :
    (∃ form, simpleForm? (String.ofList name) = some form ∧ shapeOfClean name = .leaf form) ∨
    shapeOfClean name = .leaf (.named (String.ofList name)) ∨
    ∃ base inner, name = base ++ '<' :: (inner ++ ['>']) ∧
      (shapeOfClean name = .callback ((splitArguments inner).map (cutTopLevel '|')) ∨
        (base = "Array".toList ∨ base = "Dictionary".toList) ∧
          shapeOfClean name = .container (String.ofList base) (cutTopLevel '|' inner)) := by
  cases hsimple : simpleForm? (String.ofList name) with
  | some form => exact .inl ⟨form, rfl, by rw [shapeOfClean, hsimple]⟩
  | none =>
      refine .inr ?_
      rw [shapeOfClean, hsimple]
      cases hgeneric : generic? name with
      | none => exact .inl rfl
      | some found =>
          obtain ⟨base, inner⟩ := found
          dsimp only
          split
          · exact .inr ⟨base, inner, eq_of_generic? hgeneric, .inl rfl⟩
          · split
            next hbase => exact .inr ⟨base, inner, eq_of_generic? hgeneric, .inr ⟨hbase, rfl⟩⟩
            · exact .inl rfl

/-- What is left to be read of a corrected name stands in its argument text. -/
theorem infix_of_mem_parts_clean {name part : List Char} (h : part ∈ (shapeOfClean name).parts) :
    ∃ base inner, name = base ++ '<' :: (inner ++ ['>']) ∧ part <:+: inner := by
  rcases shapeOfClean_cases name with ⟨form, -, hshape⟩ | hshape | ⟨base, inner, hname, hshape⟩
  · rw [hshape] at h
    cases h
  · rw [hshape] at h
    cases h
  · refine ⟨base, inner, hname, ?_⟩
    rcases hshape with hshape | ⟨-, hshape⟩
    · rw [hshape, NameShape.parts, List.mem_flatten] at h
      obtain ⟨alternatives, hmem, hpart⟩ := h
      obtain ⟨argument, hargument, rfl⟩ := List.mem_map.1 hmem
      exact (infix_of_mem_cutTopLevel hpart).trans (infix_of_mem_splitArguments hargument)
    · rw [hshape] at h
      exact infix_of_mem_cutTopLevel h

theorem length_lt_of_mem_parts_clean {name part : List Char}
    (h : part ∈ (shapeOfClean name).parts) : part.length < name.length := by
  obtain ⟨base, inner, rfl, hpart⟩ := infix_of_mem_parts_clean h
  have hle := hpart.length_le
  simp only [List.length_append, List.length_cons]
  omega

/-- What is left to be read is shorter than the name. -/
theorem length_lt_of_mem_parts {name part : List Char} (h : part ∈ (shape name).parts) :
    part.length < name.length :=
  Nat.lt_of_lt_of_le (length_lt_of_mem_parts_clean h)
    (Nat.le_trans (length_rename_le _) (Text.length_trimChars_le _))

/-- The form of a type name. -/
def ofName (name : List Char) : TypeForm :=
  match _h : shape name with
  | .leaf form => form
  | .callback parameters =>
    .callback (parameters.attach.map fun p => .union (p.1.attach.map fun x => ofName x.1))
  | .container base alternatives =>
    .container base (.union (alternatives.attach.map fun x => ofName x.1))
termination_by name.length
decreasing_by
  · exact length_lt_of_mem_parts (by
      rw [_h]; exact List.mem_flatten.2 ⟨p.1, p.2, x.2⟩)
  · exact length_lt_of_mem_parts (by rw [_h]; exact x.2)

/-- The form of a choice between the names given. -/
def ofAlternatives (names : List (List Char)) : TypeForm := .union (names.map ofName)

theorem ofName_of_leaf {name : List Char} {form : TypeForm} (h : shape name = .leaf form) :
    ofName name = form := by
  rw [ofName]
  split <;> simp_all

theorem ofName_of_callback {name : List Char} {parameters : List (List (List Char))}
    (h : shape name = .callback parameters) :
    ofName name = .callback (parameters.map ofAlternatives) := by
  rw [ofName]
  split
  · simp_all
  · rename_i ps hps
    obtain rfl : ps = parameters := by simpa [h] using hps.symm
    simp [ofAlternatives]
  · simp_all

theorem ofName_of_container {name : List Char} {base : String} {alternatives : List (List Char)}
    (h : shape name = .container base alternatives) :
    ofName name = .container base (ofAlternatives alternatives) := by
  rw [ofName]
  split
  · simp_all
  · simp_all
  · rename_i b alts heq
    obtain ⟨rfl, rfl⟩ : b = base ∧ alts = alternatives := by simpa [h, eq_comm] using heq
    simp [ofAlternatives]

mutual

/-- The form of a type expression. -/
def ofJson : Json → TypeForm
  | .null => .missing
  | .str name => ofName name.toList
  | .arr [] => .noAlternatives
  | .arr items => .union (ofItems items)
  | .obj fields =>
    match ofWrapped fields with
    | some form => form
    | none => if fields.isEmpty then .noAlternatives else .union (ofFields fields)
  | .bool b => .unsupported (Json.inspect (.bool b))
  | .int n => .unsupported (Json.inspect (.int n))
  | .float x => .unsupported (Json.inspect (.float x))

def ofItems : List Json → List TypeForm
  | [] => []
  | v :: rest => ofJson v :: ofItems rest

/-- The form of the expression that an object wraps, if it wraps one. -/
def ofWrapped : List (String × Json) → Option TypeForm
  | [] => none
  | (key, v) :: rest => if key = "type" then some (ofJson v) else ofWrapped rest

def ofFields : List (String × Json) → List TypeForm
  | [] => []
  | (_, v) :: rest => ofJson v :: ofFields rest

end

/-- A type expression in the declaration dialect, with its fallbacks reported. -/
def declared (expr : Json) : Logged String := (ofJson expr).write

end ApiTypings.TypeText
