import ApiTypings.Number.Shortest

/-!
The text of a binary64 number in a chosen style.
-/

namespace ApiTypings

/-- How numbers are written: the layout of decimals and the words for what is not finite. -/
structure NumberStyle where
  layout : DecimalLayout
  nan : String
  infinity : String

namespace Binary64

private def signed (negative : Bool) (text : String) : String :=
  if negative then "-" ++ text else text

/-- The text of a number: its shortest decimal, or the style's word for it. -/
def render (style : NumberStyle) : Binary64 → String
  | .nan => style.nan
  | .infinite negative => signed negative style.infinity
  | .finite negative significand exponent =>
    let decimal := if significand = 0 then ⟨0, 0⟩ else Decimal.shortest significand exponent
    signed negative (String.ofList (style.layout.render decimal))

end Binary64

end ApiTypings
