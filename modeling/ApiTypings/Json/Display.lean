import ApiTypings.Json.Basic
import ApiTypings.Number.Style
import ApiTypings.Text.Quoted
import ApiTypings.Text.Split

/-!
The text form of a value.

Where generated text or a message takes in a value of any kind, a text stands for itself and every
other value has the form given here: texts inside lists and objects are quoted, and numbers have
the fewest digits that read back.
-/

namespace ApiTypings.Json

/-- Decimals are positional from `0.0001` up to, but without, `10 ^ 16`, and an exponent has at
least two digits. -/
def decimalLayout : DecimalLayout := ⟨-4, 16, 2⟩

/-- The style of numbers in the text form. -/
def displayStyle : NumberStyle := ⟨decimalLayout, "nan", "inf"⟩

mutual

/-- The text form of a value inside a list or an object. -/
def inspect : Json → String
  | .null => "None"
  | .bool b => if b then "True" else "False"
  | .int n => toString n
  | .float x => x.render displayStyle
  | .str s => Text.quoted s
  | .arr items => "[" ++ Text.join ", " (inspectItems items) ++ "]"
  | .obj fields => "\x7b" ++ Text.join ", " (inspectFields fields) ++ "\x7d"

def inspectItems : List Json → List String
  | [] => []
  | v :: rest => inspect v :: inspectItems rest

def inspectFields : List (String × Json) → List String
  | [] => []
  | (k, v) :: rest => (Text.quoted k ++ ": " ++ inspect v) :: inspectFields rest

end

/-- The text form of a value. -/
def display : Json → String
  | .str s => s
  | v => inspect v

@[simp] theorem display_str (s : String) : display (.str s) = s := rfl

end ApiTypings.Json
