import ApiTypings.Declaration.Parameter
import ApiTypings.Proofs.Suffix
import Mathlib.Data.List.Basic

/-!
The order of parameters.

Each parameter is declared by itself and by what follows it, so a list of declared parameters goes
along with the list it is made from. A parameter is marked as optional only if none that follows
has to be given. That takes no account of a repeatable parameter which is not the last one: it
cannot stand for any number of arguments there and is declared as one that has to be given. Apart
from such a parameter behind an optional one, no parameter without a mark follows one with a mark.
-/

namespace ApiTypings.Declaration

variable {alone : Bool} {p : Parameter} {type : String} {parameters later : List Parameter}
  {declared : List DeclaredParameter}

/-- Parameters and how they are declared, one after another. -/
inductive DeclaredAs (alone : Bool) : List Parameter → List DeclaredParameter → Prop
  | nil : DeclaredAs alone [] []
  | cons {p : Parameter} {later : List Parameter} {d : DeclaredParameter}
      {ds : List DeclaredParameter}
      (name : parameterName p.name = .ok d.name)
      (type : d.type = (TypeText.declared p.type).value)
      (style : (d.style, d.cleared) = parameterStyle alone p d.type later)
      (rest : DeclaredAs alone later ds) : DeclaredAs alone (p :: later) (d :: ds)

theorem parameterName_eq_ok (h : p.name.nameKey? ≠ none) :
    ∃ name, parameterName p.name = .ok name := by
  obtain ⟨key, hkey⟩ := Option.ne_none_iff_exists'.1 h
  have hcomparable : p.name.comparable = .ok key := by rw [Json.comparable, hkey]
  exact ⟨_, congrArg (Except.map _) hcomparable⟩

/-- Parameters are declared if their names can be compared, whatever else they are. -/
theorem declareFrom_declaredAs (alone : Bool) (h : ∀ p ∈ parameters, p.name.nameKey? ≠ none) :
    ∃ declared, (declareFrom alone parameters).outcome = .ok declared ∧
      DeclaredAs alone parameters declared := by
  induction parameters with
  | nil => exact ⟨[], rfl, .nil⟩
  | cons p later ih =>
      obtain ⟨hp, hlater⟩ := List.forall_mem_cons.1 h
      obtain ⟨name, hname⟩ := parameterName_eq_ok hp
      obtain ⟨others, hothers, hrest⟩ := ih hlater
      let type := (TypeText.declared p.type).value
      let style := parameterStyle alone p type later
      have hhead : (declareParameter alone p later).outcome =
          .ok ⟨name, type, style.1, style.2⟩ := by
        rw [declareParameter, Report.outcome_bind, Report.outcome_ofExcept, hname]
        rfl
      refine ⟨⟨name, type, style.1, style.2⟩ :: others, ?_, .cons hname rfl rfl hrest⟩
      rw [declareFrom, Report.outcome_bind, hhead, Except.bind, Report.outcome_bind, hothers]
      rfl

/-! ### Styles -/

/-- The last of the parameters is a rest parameter if it is repeatable, and no other one is. -/
theorem style_eq_rest :
    (parameterStyle alone p type later).1 = .rest ↔ p.repeatable = true ∧ later = [] := by
  rw [parameterStyle]
  split
  next h => simpa using h
  next h =>
    simp only [Bool.and_eq_true, List.isEmpty_iff] at h
    simp only [h, iff_false]
    split <;> simp

theorem style_eq_optional (hnotLast : later ≠ []) :
    (parameterStyle false p type later).1 = .optional ↔
      p.optional = true ∧ later.any isRequired = false := by
  have hrest : (p.repeatable && later.isEmpty) = false := by
    simp [List.isEmpty_eq_false_iff.2 hnotLast]
  rw [parameterStyle, hrest]
  cases p.optional <;> cases later.any isRequired <;> simp

/-- Where nothing that follows has to be given, an unmarked parameter is one that is not optional,
unless it is a rest parameter. -/
theorem style_eq_required (hlater : later.any isRequired = false) :
    (parameterStyle false p type later).1 = .required ↔
      p.optional = false ∧ ¬(p.repeatable = true ∧ later = []) := by
  rw [parameterStyle]
  split
  next h => simpa using fun _ => h
  next h =>
    simp only [Bool.and_eq_true, List.isEmpty_iff] at h
    rw [hlater]
    cases p.optional <;> simp [h]

/-- The mark of a parameter was cleared if it is optional and declared without a mark. -/
theorem cleared_eq (halone : alone = true → later = []) :
    (parameterStyle alone p type later).2 =
      (p.optional && (parameterStyle alone p type later).1 == .required) := by
  rw [parameterStyle]
  split
  · simp
  · cases alone with
    | false => cases p.optional <;> cases later.any isRequired <;> rfl
    | true =>
      rw [halone rfl]
      cases p.optional <;> cases isDictionaryType type <;> rfl

/-! ### Lists of parameters -/

theorem DeclaredAs.forall₂ (h : DeclaredAs alone parameters declared) :
    List.Forall₂ (fun p d => parameterName p.name = .ok d.name ∧
      d.type = (TypeText.declared p.type).value) parameters declared := by
  induction h with
  | nil => exact .nil
  | cons name type _ _ ih => exact .cons ⟨name, type⟩ ih

theorem DeclaredAs.eq_nil (h : DeclaredAs alone [] declared) : declared = [] := by
  cases h
  rfl

theorem DeclaredAs.not_rest (h : DeclaredAs alone parameters declared) :
    ∀ d ∈ declared.dropLast, d.style ≠ .rest := by
  induction h with
  | nil => simp
  | @cons p later d ds name type style rest ih =>
      cases rest with
      | nil => simp
      | cons =>
        rw [List.dropLast_cons_cons]
        refine List.forall_mem_cons.2 ⟨fun hrest => ?_, ih⟩
        have hstyle : d.style = (parameterStyle alone p d.type _).1 := congrArg Prod.fst style
        rw [hstyle] at hrest
        exact List.cons_ne_nil _ _ (style_eq_rest.1 hrest).2

/-- The names of those optional parameters that are declared as if they had to be given. -/
def demandedNames (parameters : List Parameter) (declared : List DeclaredParameter) : List Json :=
  ((parameters.zip declared).filter fun e => e.1.optional && e.2.style == .required).map (·.2.name)

theorem DeclaredAs.clearedNames (h : DeclaredAs alone parameters declared)
    (halone : alone = true → parameters.length = 1) :
    clearedNames declared = demandedNames parameters declared := by
  induction h with
  | nil => rfl
  | @cons p later d ds name type style rest ih =>
      have hlast (h : alone = true) : later = [] := by simpa using halone h
      have hstyle : d.style = (parameterStyle alone p d.type later).1 := congrArg Prod.fst style
      have hcleared : d.cleared = (p.optional && d.style == .required) := by
        rw [hstyle, ← cleared_eq hlast]
        exact congrArg Prod.snd style
      have hrest : Declaration.clearedNames ds = demandedNames later ds := by
        cases halone' : alone with
        | false => exact ih (by simp [halone'])
        | true =>
          obtain rfl := hlast halone'
          rw [rest.eq_nil]
          rfl
      rw [Declaration.clearedNames, demandedNames] at hrest ⊢
      rw [List.zip_cons_cons, List.filter_cons, List.filter_cons, ← hcleared]
      cases d.cleared <;> simp [hrest]

/-! ### The order -/

/-- That no parameter without a mark follows one with a mark. -/
def Ordered (declared : List DeclaredParameter) : Prop :=
  declared.Pairwise fun a b => a.style = .optional → b.style ≠ .required

/-- That an optional parameter keeps its mark, since none that follows is counted among those which
have to be given, although one that follows is repeatable without being optional or the last. -/
def OverlooksRepeatable (parameters : List Parameter) : Prop :=
  ∃ p later, p :: later <:+ parameters ∧ p.optional = true ∧ later.any isRequired = false ∧
    ∃ q ∈ later.dropLast, q.repeatable = true ∧ q.optional = false

theorem not_overlooksRepeatable_nil : ¬OverlooksRepeatable [] := Suffix.not_exists_nil

theorem overlooksRepeatable_cons :
    OverlooksRepeatable (p :: later) ↔
      (p.optional = true ∧ later.any isRequired = false ∧
        ∃ q ∈ later.dropLast, q.repeatable = true ∧ q.optional = false) ∨
      OverlooksRepeatable later := Suffix.exists_cons

/-- Of parameters that do not have to be given, those declared without a mark are the repeatable
ones that are neither optional nor the last. -/
theorem DeclaredAs.exists_required (h : DeclaredAs false parameters declared)
    (hany : parameters.any isRequired = false) :
    (∃ d ∈ declared, d.style = .required) ↔
      ∃ q ∈ parameters.dropLast, q.repeatable = true ∧ q.optional = false := by
  induction h with
  | nil => simp
  | @cons p later d ds name type style rest ih =>
      obtain ⟨hp, hlater⟩ : isRequired p = false ∧ later.any isRequired = false := by
        rwa [List.any_cons, Bool.or_eq_false_iff] at hany
      have hstyle : d.style = .required ↔
          p.optional = false ∧ ¬(p.repeatable = true ∧ later = []) := by
        rw [show d.style = (parameterStyle false p d.type later).1 from congrArg Prod.fst style]
        exact style_eq_required hlater
      have hrepeatable : p.optional = false → p.repeatable = true := by
        intro hoptional
        simpa [isRequired, hoptional] using hp
      cases later with
      | nil =>
        rw [rest.eq_nil]
        simpa [hstyle] using hrepeatable
      | cons q others =>
        rw [List.dropLast_cons_cons, List.exists_mem_cons_iff, List.exists_mem_cons_iff, ih hlater,
          hstyle]
        refine or_congr_left ⟨fun h => ⟨hrepeatable h.1, h.1⟩, fun h => ⟨h.2, ?_⟩⟩
        exact fun hlast => List.cons_ne_nil _ _ hlast.2

theorem DeclaredAs.ordered_iff (h : DeclaredAs false parameters declared) :
    Ordered declared ↔ ¬OverlooksRepeatable parameters := by
  induction h with
  | nil => simp [Ordered, not_overlooksRepeatable_nil]
  | @cons p later d ds name type style rest ih =>
      rw [overlooksRepeatable_cons, not_or, ← ih, Ordered, List.pairwise_cons]
      refine and_congr_left fun _ => ?_
      cases later with
      | nil => simp [rest.eq_nil]
      | cons q others =>
        have hstyle : d.style = .optional ↔
            p.optional = true ∧ (q :: others).any isRequired = false := by
          rw [show d.style = (parameterStyle false p d.type (q :: others)).1 from
            congrArg Prod.fst style]
          exact style_eq_optional (List.cons_ne_nil _ _)
        constructor
        · rintro hordered ⟨hoptional, hany, hfollows⟩
          obtain ⟨b, hb, hrequired⟩ := (rest.exists_required hany).2 hfollows
          exact hordered b hb (hstyle.2 ⟨hoptional, hany⟩) hrequired
        · intro hnot b hb hmark hrequired
          obtain ⟨hoptional, hany⟩ := hstyle.1 hmark
          exact hnot ⟨hoptional, hany, (rest.exists_required hany).1 ⟨b, hb, hrequired⟩⟩

/-- A parameter on its own is in order. -/
theorem DeclaredAs.ordered_iff_of_single (h : DeclaredAs alone [p] declared) :
    Ordered declared ↔ ¬OverlooksRepeatable [p] := by
  cases h with
  | @cons _ _ d _ _ _ _ rest =>
    rw [rest.eq_nil]
    simp [Ordered, overlooksRepeatable_cons, not_overlooksRepeatable_nil]

/-- Parameters are declared one for one and in order, at most the last one as a rest parameter, and
the marks that are reported as cleared are those of the optional parameters declared without one.
No parameter without a mark follows one with a mark exactly if no repeatable parameter is
overlooked. -/
theorem declareParameters_in_order (h : ∀ p ∈ parameters, p.name.nameKey? ≠ none) :
    ∃ declared, (declareParameters parameters).outcome = .ok declared ∧
      List.Forall₂ (fun p d => parameterName p.name = .ok d.name ∧
        d.type = (TypeText.declared p.type).value) parameters declared ∧
      (∀ d ∈ declared.dropLast, d.style ≠ .rest) ∧
      clearedNames declared = demandedNames parameters declared ∧
      (Ordered declared ↔ ¬OverlooksRepeatable parameters) := by
  obtain ⟨declared, hdeclared, has⟩ := declareFrom_declaredAs (parameters.length == 1) h
  have hcleared := has.clearedNames fun halone => by simpa using halone
  refine ⟨declared, hdeclared, has.forall₂, has.not_rest, hcleared, ?_⟩
  cases halone : parameters.length == 1 with
  | false => exact (halone ▸ has).ordered_iff
  | true =>
    obtain ⟨p, rfl⟩ := List.length_eq_one_iff.1 (beq_iff_eq.1 halone)
    exact has.ordered_iff_of_single

/-- A parameter with the name and the marks given, that takes a text. -/
def textParameter (name : String) (optional repeatable : Bool) : Parameter :=
  ⟨.str name, .str "String", optional, repeatable, ""⟩

/-- Parameters of every kind: the first mark has to be cleared, the second is kept, and the last
parameter takes the remaining arguments. -/
def mixedParameters : List Parameter :=
  [textParameter "default" true false, textParameter "b" false false, textParameter "c" true true,
    textParameter "rest" false true]

theorem declareParameters_in_order_mixedParameters :
    (∀ p ∈ mixedParameters, p.name.nameKey? ≠ none) ∧
      ∃ declared, (declareParameters mixedParameters).outcome = .ok declared ∧
        List.Forall₂ (fun p d => parameterName p.name = .ok d.name ∧
          d.type = (TypeText.declared p.type).value) mixedParameters declared ∧
        (∀ d ∈ declared.dropLast, d.style ≠ .rest) ∧
        clearedNames declared = demandedNames mixedParameters declared ∧
        (Ordered declared ↔ ¬OverlooksRepeatable mixedParameters) := by
  have hnames : ∀ p ∈ mixedParameters, p.name.nameKey? ≠ none := by
    simp [mixedParameters, textParameter, Json.nameKey?]
  exact ⟨hnames, declareParameters_in_order hnames⟩

/-- A repeatable parameter between two optional ones is declared without a mark, behind one that
keeps its own. -/
theorem unordered_overlookedParameter :
    ∃ declared, (declareParameters [textParameter "a" true false, textParameter "b" false true,
        textParameter "c" true false]).outcome = .ok declared ∧
      declared.map DeclaredParameter.render = ["a?: string", "b: string", "c?: string"] ∧
      clearedNames declared = [] ∧ ¬Ordered declared := by
  have htype : (TypeText.declared (.str "String")).value = "string" := by decide +kernel
  refine ⟨[⟨.str "a", "string", .optional, false⟩, ⟨.str "b", "string", .required, false⟩,
    ⟨.str "c", "string", .optional, false⟩], ?_, by decide +kernel, rfl, by simp [Ordered]⟩
  rw [← htype]
  rfl

end ApiTypings.Declaration
