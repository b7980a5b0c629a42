import ApiTypings.Proofs.Json.Parts
import ApiTypings.Proofs.TypeText.Renaming

/-!
What is read.

Reading a type text takes pieces out of it and corrects names, and it makes forms of a few kinds
only. What is to be shown of the form of a name is shown for each of these kinds, and a property
that pieces inherit and corrections keep is known of whatever is taken over into the form. Of a type
expression, the elements of a list are read, and of an object what it wraps or else its values.
-/

namespace ApiTypings.TypeText

variable {P : List Char → Prop} {cs part : List Char}

/-! ### Names -/

/-- A property of texts that reading keeps: pieces inherit it, and corrections do no harm to it. -/
structure Hereditary (P : List Char → Prop) : Prop where
  piece : ∀ {part whole : List Char}, part <:+: whole → P whole → P part
  corrected : ∀ {cs : List Char}, P cs → P (rename cs)

theorem Hereditary.and {Q : List Char → Prop} (hP : Hereditary P) (hQ : Hereditary Q) :
    Hereditary fun cs => P cs ∧ Q cs where
  piece hpiece h := ⟨hP.piece hpiece h.1, hQ.piece hpiece h.2⟩
  corrected h := ⟨hP.corrected h.1, hQ.corrected h.2⟩

theorem Hereditary.clean (h : Hereditary P) (hcs : P cs) : P (rename (Text.trimChars cs)) :=
  h.corrected (h.piece (Text.trimChars_isInfix cs) hcs)

theorem Hereditary.of_mem_parts (h : Hereditary P) (hcs : P cs) (hpart : part ∈ (shape cs).parts) :
    P part := by
  obtain ⟨base, inner, hclean, hinner⟩ := infix_of_mem_parts_clean hpart
  have hwhole : inner <:+: rename (Text.trimChars cs) :=
    ⟨base ++ ['<'], ['>'], by rw [hclean]; simp⟩
  exact h.piece (hinner.trans hwhole) (h.clean hcs)

/-- The forms of the names with a meaning of their own. -/
def simpleForms : List TypeForm :=
  [.named "boolean", .named "function", .named "number", .named "string", .any, .anyCallback,
    .anyArray, .untypedArray]

theorem mem_simpleForms {name : String} {form : TypeForm} (h : simpleForm? name = some form) :
    form ∈ simpleForms := by
  have hlower : Unicode.lower "Boolean" = "boolean" ∧ Unicode.lower "Function" = "function" ∧
      Unicode.lower "Number" = "number" ∧ Unicode.lower "String" = "string" := by decide +kernel
  unfold simpleForm? at h
  split_ifs at h with hprimitive <;> obtain rfl := Option.some.inj h
  · rcases hprimitive with rfl | rfl | rfl | rfl <;> simp [simpleForms, hlower]
  all_goals simp [simpleForms]

/-- A proof for the forms of all names with a hereditary property: for each kind of form, from its
parts to the whole. -/
theorem ofName_induction {motive : TypeForm → Prop} (h : Hereditary P)
    (simple : ∀ form ∈ simpleForms, motive form)
    (named : ∀ name : String, P name.toList → motive (.named name))
    (union : ∀ alternatives : List TypeForm, (∀ f ∈ alternatives, motive f) →
      motive (.union alternatives))
    (container : ∀ base ∈ ["Array", "Dictionary"], ∀ element : TypeForm, motive element →
      motive (.container base element))
    (callback : ∀ parameters : List TypeForm, (∀ f ∈ parameters, motive f) →
      motive (.callback parameters)) (hcs : P cs) : motive (ofName cs) := by
  -- What is left to be read of a name is shorter than the name, and has the property as well.
  induction hlength : cs.length using Nat.strongRecOn generalizing cs with
  | ind length ih =>
      subst hlength
      have hparts : ∀ part ∈ (shape cs).parts, motive (ofName part) := fun part hpart =>
        ih part.length (length_lt_of_mem_parts hpart) (h.of_mem_parts hcs hpart) rfl
      have hunion {alternatives : List (List Char)}
          (hmem : ∀ part ∈ alternatives, part ∈ (shape cs).parts) :
          motive (ofAlternatives alternatives) :=
        union _ (List.forall_mem_map.2 fun part hpart => hparts part (hmem part hpart))
      rcases shapeOfClean_cases (rename (Text.trimChars cs)) with
        ⟨form, hsimple, hshape⟩ | hshape | ⟨base, inner, -, hshape | ⟨hbase, hshape⟩⟩
      · rw [ofName_of_leaf hshape]
        exact simple form (mem_simpleForms hsimple)
      · rw [ofName_of_leaf hshape]
        refine named _ ?_
        rw [String.toList_ofList]
        exact h.clean hcs
      · rw [ofName_of_callback hshape]
        refine callback _ (List.forall_mem_map.2 fun alternatives hmem =>
          hunion fun part hpart => ?_)
        rw [shape, hshape]
        exact List.mem_flatten.2 ⟨alternatives, hmem, hpart⟩
      · rw [ofName_of_container hshape]
        refine container _ ?_ _ (hunion fun part hpart => ?_)
        · rcases hbase with rfl | rfl <;> simp
        · rw [shape, hshape]
          exact hpart

/-! ### Expressions -/

mutual

/-- The expressions that are read within an expression, which is the first of them: the elements of
a list, and of an object what it wraps or else its values. -/
def readParts : Json → List Json
  | .arr items => .arr items :: readItems items
  | .obj fields =>
    .obj fields ::
      match readWrapped fields with
      | some parts => parts
      | none => readFields fields
  | .str s => [.str s]
  | .null => [.null]
  | .bool b => [.bool b]
  | .int n => [.int n]
  | .float x => [.float x]

def readItems : List Json → List Json
  | [] => []
  | v :: rest => readParts v ++ readItems rest

def readWrapped : List (String × Json) → Option (List Json)
  | [] => none
  | (key, v) :: rest => if key = "type" then some (readParts v) else readWrapped rest

def readFields : List (String × Json) → List Json
  | [] => []
  | (_, v) :: rest => readParts v ++ readFields rest

end

section Expressions

variable {items : List Json} {fields : Fields} {v : Json}

theorem readParts_arr (items : List Json) :
    readParts (.arr items) = .arr items :: items.flatMap readParts := by
  have hitems : readItems items = items.flatMap readParts := by
    induction items with
    | nil => rfl
    | cons v rest ih => rw [readItems, ih, List.flatMap_cons]
  rw [readParts, hitems]

theorem readWrapped_eq (fields : Fields) :
    readWrapped fields = (fields.get? "type").map readParts := by
  induction fields with
  | nil => rfl
  | cons entry rest ih =>
      obtain ⟨key, v⟩ := entry
      rw [readWrapped, Fields.get?_cons, ih]
      split <;> rfl

theorem readParts_of_wrapped (h : fields.get? "type" = some v) :
    readParts (.obj fields) = .obj fields :: readParts v := by
  rw [readParts, readWrapped_eq, h]
  rfl

theorem readParts_of_keyed (h : fields.get? "type" = none) :
    readParts (.obj fields) = .obj fields :: fields.flatMap fun entry => readParts entry.2 := by
  have hfields (fields : Fields) :
      readFields fields = fields.flatMap fun entry => readParts entry.2 := by
    induction fields with
    | nil => rfl
    | cons entry rest ih => rw [readFields, ih, List.flatMap_cons]
  rw [readParts, readWrapped_eq, h, ← hfields]
  rfl

theorem ofJson_arr (hne : items ≠ []) : ofJson (.arr items) = .union (items.map ofJson) := by
  have hitems (items : List Json) : ofItems items = items.map ofJson := by
    induction items with
    | nil => rfl
    | cons v rest ih => rw [ofItems, ih, List.map_cons]
  cases items with
  | nil => exact absurd rfl hne
  | cons v rest => rw [ofJson, hitems]; exact List.cons_ne_nil v rest

theorem ofWrapped_eq (fields : Fields) : ofWrapped fields = (fields.get? "type").map ofJson := by
  induction fields with
  | nil => rfl
  | cons entry rest ih =>
      obtain ⟨key, v⟩ := entry
      rw [ofWrapped, Fields.get?_cons, ih]
      split <;> rfl

theorem ofJson_of_wrapped (h : fields.get? "type" = some v) :
    ofJson (.obj fields) = ofJson v := by
  rw [ofJson, ofWrapped_eq, h]
  rfl

theorem ofJson_of_keyed (h : fields.get? "type" = none) (hne : fields ≠ []) :
    ofJson (.obj fields) = .union (fields.map fun entry => ofJson entry.2) := by
  have hfields (fields : Fields) : ofFields fields = fields.map fun entry => ofJson entry.2 := by
    induction fields with
    | nil => rfl
    | cons entry rest ih => rw [ofFields, ih, List.map_cons]
  rw [ofJson, ofWrapped_eq, h, ← hfields]
  exact if_neg (by simpa using hne)

/-- A proof for all type expressions: from what is read of a list or an object to the whole. -/
theorem expression_induction {motive : Json → Prop}
    (scalar : ∀ v : Json, v.nameKey?.isSome → motive v)
    (empty : ∀ v ∈ [Json.arr [], .obj []], motive v)
    (list : ∀ items : List Json, items ≠ [] → (∀ v ∈ items, motive v) → motive (.arr items))
    (wrapped : ∀ (fields : Fields) (v : Json), fields.get? "type" = some v → motive v →
      motive (.obj fields))
    (keyed : ∀ fields : Fields, fields ≠ [] → fields.get? "type" = none →
      (∀ entry ∈ fields, motive entry.2) → motive (.obj fields)) (e : Json) : motive e := by
  refine Json.ofParts (fun fields hfields => ?_) (fun items hitems => ?_) scalar e
  · by_cases hne : fields = []
    · subst hne
      exact empty _ (by simp)
    · cases htype : fields.get? "type" with
      | none => exact keyed fields hne htype hfields
      | some v => exact wrapped fields v htype (hfields _ (Fields.mem_of_get? htype))
  · by_cases hne : items = []
    · subst hne
      exact empty _ (by simp)
    · exact list items hne hitems

/-- A proof for the forms of all expressions whose names have forms with a property: it goes over to
choices between them, and forms that no name has have it. -/
theorem ofJson_induction {motive : TypeForm → Prop} (missing : motive .missing)
    (unsupported : ∀ shown : String, motive (.unsupported shown))
    (noAlternatives : motive .noAlternatives)
    (union : ∀ alternatives : List TypeForm, (∀ f ∈ alternatives, motive f) →
      motive (.union alternatives)) {e : Json}
    (names : ∀ s : String, .str s ∈ readParts e → motive (ofName s.toList)) :
    motive (ofJson e) := by
  induction e using expression_induction with
  | scalar v hv =>
      cases v with
      | null => exact missing
      | bool b => exact unsupported (Json.inspect (.bool b))
      | int n => exact unsupported (Json.inspect (.int n))
      | float x => exact unsupported (Json.inspect (.float x))
      | str s => exact names s List.mem_cons_self
      | arr items => simp [Json.nameKey?] at hv
      | obj fields => simp [Json.nameKey?] at hv
  | empty v hv =>
      simp only [List.mem_cons, List.not_mem_nil, or_false] at hv
      rcases hv with rfl | rfl
      · exact noAlternatives
      · exact noAlternatives
  | list items hne ih =>
      rw [readParts_arr] at names
      rw [ofJson_arr hne]
      refine union _ (List.forall_mem_map.2 fun v hv => ih v hv fun s hs => names s ?_)
      exact List.mem_cons_of_mem _ (List.mem_flatMap.2 ⟨v, hv, hs⟩)
  | wrapped fields v htype ih =>
      rw [readParts_of_wrapped htype] at names
      rw [ofJson_of_wrapped htype]
      exact ih fun s hs => names s (List.mem_cons_of_mem _ hs)
  | keyed fields hne htype ih =>
      rw [readParts_of_keyed htype] at names
      rw [ofJson_of_keyed htype hne]
      refine union _ (List.forall_mem_map.2 fun entry hentry =>
        ih entry hentry fun s hs => names s ?_)
      exact List.mem_cons_of_mem _ (List.mem_flatMap.2 ⟨entry, hentry, hs⟩)

end Expressions

end ApiTypings.TypeText
