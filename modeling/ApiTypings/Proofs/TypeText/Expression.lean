import ApiTypings.Proofs.TypeText.Reading
import ApiTypings.Proofs.TypeText.Translation

/-!
Expressions over type terms.

A description gives a type as the text of a term, as alternatives in a list or in an object, or
wrapped in an object that may say more. Whatever the nesting, a declaration has the translations of
the terms, in order and with bars in between.
-/

namespace ApiTypings.TypeText

/-- A key under which an object does not wrap an expression. -/
def AlternativeKey : Type := { key : String // key ≠ "type" }

/-- A type expression whose names are the texts of terms. -/
inductive TypeExpression where
  | term (t : TypeTerm)
  | either (first : TypeExpression) (others : List TypeExpression)
  | wrapped (before : List (AlternativeKey × Json)) (inner : TypeExpression)
      (after : List (String × Json))
  | keyed (first : AlternativeKey × TypeExpression)
      (others : List (AlternativeKey × TypeExpression))

mutual

/-- An expression as a description gives it. -/
def TypeExpression.toJson : TypeExpression → Json
  | .term t => .str t.print
  | .either first others => .arr (first.toJson :: toItems others)
  | .wrapped before inner after =>
    .obj (before.map (fun field => (field.1.val, field.2)) ++ ("type", inner.toJson) :: after)
  | .keyed (key, first) others => .obj ((key.val, first.toJson) :: toFields others)

def toItems : List TypeExpression → List Json
  | [] => []
  | e :: rest => e.toJson :: toItems rest

def toFields : List (AlternativeKey × TypeExpression) → List (String × Json)
  | [] => []
  | (key, e) :: rest => (key.val, e.toJson) :: toFields rest

end

mutual

/-- How an expression is declared. -/
def TypeExpression.translation : TypeExpression → String
  | .term t => t.translation
  | .either first others => Text.join "|" (first.translation :: itemTranslations others)
  | .wrapped _ inner _ => inner.translation
  | .keyed (_, first) others => Text.join "|" (first.translation :: fieldTranslations others)

def itemTranslations : List TypeExpression → List String
  | [] => []
  | e :: rest => e.translation :: itemTranslations rest

def fieldTranslations : List (AlternativeKey × TypeExpression) → List String
  | [] => []
  | (_, e) :: rest => e.translation :: fieldTranslations rest

end

/-! ### Reading -/

theorem type_not_mem_keys_toFields (es : List (AlternativeKey × TypeExpression)) :
    "type" ∉ Fields.keys (toFields es) := by
  induction es with
  | nil => exact List.not_mem_nil
  | cons e rest ih => exact List.not_mem_cons_of_ne_of_not_mem e.1.property.symm ih

theorem get?_wrapped (before : List (AlternativeKey × Json)) (v : Json)
    (after : List (String × Json)) :
    Fields.get? (before.map (fun field => (field.1.val, field.2)) ++ ("type", v) :: after) "type" =
      some v := by
  have hbefore : "type" ∉ Fields.keys (before.map fun field => (field.1.val, field.2)) := by
    rw [Fields.keys, List.map_map, List.mem_map]
    rintro ⟨field, -, hkey⟩
    exact field.1.property hkey
  rw [Fields.get?_append, Fields.get?_of_not_mem_keys hbefore, Option.none_or, Fields.get?_cons,
    if_pos rfl]

mutual

theorem TypeExpression.render_ofJson :
    ∀ e : TypeExpression, (ofJson e.toJson).render = e.translation
  | .term t => by
    rw [TypeExpression.toJson, ofJson, TypeTerm.print, String.toList_ofList, t.render_print,
      TypeExpression.translation]
  | .either first others => by
    rw [TypeExpression.toJson, ofJson_arr (List.cons_ne_nil _ _), List.map_cons, TypeForm.render,
      TypeForm.renderAll, first.render_ofJson, renderAll_toItems others,
      TypeExpression.translation]
  | .wrapped before inner after => by
    rw [TypeExpression.toJson, ofJson_of_wrapped (get?_wrapped before _ after),
      inner.render_ofJson, TypeExpression.translation]
  | .keyed (key, first) others => by
    have hkeys : "type" ∉ Fields.keys ((key.val, first.toJson) :: toFields others) :=
      type_not_mem_keys_toFields ((key, first) :: others)
    rw [TypeExpression.toJson, ofJson_of_keyed (Fields.get?_of_not_mem_keys hkeys)
      (List.cons_ne_nil _ _), List.map_cons, TypeForm.render, TypeForm.renderAll,
      first.render_ofJson, renderAll_toFields others, TypeExpression.translation]

theorem renderAll_toItems : ∀ es : List TypeExpression,
    TypeForm.renderAll ((toItems es).map ofJson) = itemTranslations es
  | [] => rfl
  | e :: rest => congrArg₂ List.cons e.render_ofJson (renderAll_toItems rest)

theorem renderAll_toFields : ∀ es : List (AlternativeKey × TypeExpression),
    TypeForm.renderAll ((toFields es).map fun field => ofJson field.2) = fieldTranslations es
  | [] => rfl
  | (_, e) :: rest => congrArg₂ List.cons e.render_ofJson (renderAll_toFields rest)

end

/-- Type texts are declared as their terms are translated, alone and in every expression. -/
theorem declared_translation :
    (∀ t : TypeTerm, (declared (.str t.print)).value = t.translation) ∧
      ∀ e : TypeExpression, (declared e.toJson).value = e.translation :=
  ⟨fun t => (TypeExpression.term t).render_ofJson, fun e => e.render_ofJson⟩

end ApiTypings.TypeText
