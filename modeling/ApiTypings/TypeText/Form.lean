import ApiTypings.Journal
import ApiTypings.Text.Split

/-!
Type forms: what a type expression means for a declaration.

A type expression is first read into a form and then written in the declaration dialect. Whatever
cannot be read becomes a form of its own, which is written as a flagged fallback and reported by a
warning; this keeps reading total and every fallback visible.
-/

namespace ApiTypings.TypeText

/-- A type as it will be declared. -/
inductive TypeForm where
  /-- A type written as it is. -/
  | named (name : String)
  /-- Any value at all. -/
  | any
  /-- A function of any arguments. -/
  | anyCallback
  /-- A list whose elements may be anything. -/
  | anyArray
  /-- A list without a word about its elements. -/
  | untypedArray
  /-- No type is given. -/
  | missing
  /-- The value given is no type expression; `shown` is its text form. -/
  | unsupported (shown : String)
  /-- A choice between no alternatives. -/
  | noAlternatives
  | union (alternatives : List TypeForm)
  | container (name : String) (element : TypeForm)
  | callback (parameters : List TypeForm)
  deriving Repr, Inhabited

namespace TypeForm

/-- The fallback for a type that cannot be told. -/
def unresolvedText : String := "number /* ERROR: unresolved type */"

/-- The fallback for a list without an element type. -/
def untypedArrayText : String := "Array<any> /* ERROR: untyped array */"

def anyCallbackText : String := "(...args: any[]) => void"

/-- Numbered parameters, the first one having the given number. -/
def numbered (n : Nat) : List String → List String
  | [] => []
  | t :: rest => ("arg" ++ toString n ++ ": " ++ t) :: numbered (n + 1) rest

/-- Numbers are written in digits. -/
theorem isDigit_of_mem_toString {n : Nat} {c : Char} (h : c ∈ (toString n).toList) :
    c.isDigit = true := by
  rw [Nat.toString_eq_repr, Nat.toList_repr] at h
  exact Nat.isDigit_of_mem_toDigits (by decide) (by decide) h

mutual

/-- A form in the declaration dialect. -/
def render : TypeForm → String
  | .named name => name
  | .any => "any"
  | .anyCallback => anyCallbackText
  | .anyArray => "Array<any>"
  | .untypedArray => untypedArrayText
  | .missing => unresolvedText
  | .unsupported _ => unresolvedText
  | .noAlternatives => unresolvedText
  | .union alternatives => Text.join "|" (renderAll alternatives)
  | .container name element => name ++ "<" ++ render element ++ ">"
  | .callback parameters =>
    "(" ++ Text.join ", " (numbered 1 (renderAll parameters)) ++ ") => void"

def renderAll : List TypeForm → List String
  | [] => []
  | f :: rest => render f :: renderAll rest

end

private def warning (message : String) : List Entry := [⟨.warning, .typeText, message⟩]

mutual

/-- The warnings that a form is reported with, in the order in which its parts are written. -/
def warnings : TypeForm → List Entry
  | .untypedArray => warning "Untyped array in API description."
  | .missing => warning "Missing type information; emitting unresolved fallback."
  | .unsupported shown =>
    warning ("Unsupported type expression " ++ shown ++ "; emitting unresolved fallback.")
  | .union alternatives => warningsOfAll alternatives
  | .container _ element => warnings element
  | .callback parameters => warningsOfAll parameters
  | _ => []

def warningsOfAll : List TypeForm → List Entry
  | [] => []
  | f :: rest => warnings f ++ warningsOfAll rest

end

@[simp] theorem renderAll_eq_map (forms : List TypeForm) : renderAll forms = forms.map render := by
  induction forms with
  | nil => rfl
  | cons f rest ih => simp [renderAll, ih]

@[simp] theorem warningsOfAll_eq_flatMap (forms : List TypeForm) :
    warningsOfAll forms = forms.flatMap warnings := by
  induction forms with
  | nil => rfl
  | cons f rest ih => simp [warningsOfAll, ih]

mutual

/-- A form is reported by warnings on type texts. -/
theorem of_mem_warnings {e : Entry} : ∀ f : TypeForm, e ∈ f.warnings →
    e.level = .warning ∧ e.topic = .typeText
  | .untypedArray, h => by obtain rfl := List.mem_singleton.1 h; exact ⟨rfl, rfl⟩
  | .missing, h => by obtain rfl := List.mem_singleton.1 h; exact ⟨rfl, rfl⟩
  | .unsupported _, h => by obtain rfl := List.mem_singleton.1 h; exact ⟨rfl, rfl⟩
  | .union alternatives, h => of_mem_warningsOfAll alternatives h
  | .container _ element, h => of_mem_warnings element h
  | .callback parameters, h => of_mem_warningsOfAll parameters h
  | .named _, h => by cases h
  | .any, h => by cases h
  | .anyCallback, h => by cases h
  | .anyArray, h => by cases h
  | .noAlternatives, h => by cases h

theorem of_mem_warningsOfAll {e : Entry} : ∀ forms : List TypeForm, e ∈ warningsOfAll forms →
    e.level = .warning ∧ e.topic = .typeText
  | [], h => by cases h
  | f :: rest, h => by
      rcases List.mem_append.1 h with h | h
      · exact of_mem_warnings f h
      · exact of_mem_warningsOfAll rest h

end

/-- Writes a form, reporting its fallbacks. -/
def write (f : TypeForm) : Logged String := ⟨f.render, f.warnings⟩

end TypeForm

end ApiTypings.TypeText
