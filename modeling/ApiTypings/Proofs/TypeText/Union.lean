import ApiTypings.Proofs.Text.Pieces
import ApiTypings.Proofs.TypeText.Reading
import Mathlib.Data.List.Forall2

/-!
Unions as they are read.

A union is written with bars between its alternatives, and whoever reads it takes for a bar of the
union each one that stands outside of all brackets, but none behind an arrow: what a function
returns goes on as far as it can. So the alternatives of a list are read as they were given if each
of them but the last has closed its brackets and is not within the result of a function where it
ends. A callback is such a function, and nothing is put around it: in front of other alternatives it
makes them part of what it returns.
-/

namespace ApiTypings.TypeText

/-! ### Reading a union -/

def opensBracket (c : Char) : Bool := ['<', '(', '[', '{'].contains c

def closesBracket (c : Char) : Bool := ['>', ')', ']', '}'].contains c

/-- A place in a type text: how many brackets are open there, whether it is in the result of a
function outside of all brackets, and whether it follows an equals sign. -/
structure UnionScan where
  opened : Nat
  inResult : Bool
  afterEquals : Bool
  deriving DecidableEq

namespace UnionScan

def start : UnionScan := ⟨0, false, false⟩

/-- The place behind one more character. An angle bracket behind an equals sign is the tip of an
arrow, and a bracket that closes none is passed over. -/
def step (s : UnionScan) (c : Char) : UnionScan :=
  if s.afterEquals && c == '>' then ⟨s.opened, s.inResult || s.opened == 0, false⟩
  else if opensBracket c then ⟨s.opened + 1, s.inResult, false⟩
  else if closesBracket c then ⟨s.opened - 1, s.inResult, false⟩
  else ⟨s.opened, s.inResult, c == '='⟩

def after (s : UnionScan) (cs : List Char) : UnionScan := cs.foldl step s

/-- Whether a bar at this place stands between two alternatives. -/
def cuts (s : UnionScan) : Bool := s.opened == 0 && !s.inResult

/-- The place, if what was passed may have been the beginning of a result. -/
def within (s : UnionScan) (result : Bool) : UnionScan :=
  { s with inResult := s.inResult || (result && s.opened == 0) }

end UnionScan

/-- The alternatives of what is left of a text. `current` holds the characters of the current one,
the last one first. -/
def alternativesFrom (s : UnionScan) (current : List Char) : List Char → List (List Char)
  | [] => [current.reverse]
  | c :: rest =>
    if c = '|' ∧ s.cuts then current.reverse :: alternativesFrom (s.step c) [] rest
    else alternativesFrom (s.step c) (c :: current) rest

/-- The alternatives that a type text is read as. -/
def alternatives (cs : List Char) : List (List Char) := alternativesFrom .start [] cs

/-- That a bar behind a text begins a further alternative. -/
def Complete (cs : List Char) : Prop := (UnionScan.start.after cs).cuts = true

instance (cs : List Char) : Decidable (Complete cs) := inferInstanceAs (Decidable (_ = true))

example : alternatives "A<B|C>|(x: D|E) => F|G".toList =
    ["A<B|C>".toList, "(x: D|E) => F|G".toList] := by decide

/-! ### Bars between texts -/

section Bars

variable {s : UnionScan} {a b : List Char}

@[simp] theorem UnionScan.after_nil (s : UnionScan) : s.after [] = s := rfl

@[simp] theorem UnionScan.after_cons (s : UnionScan) (c : Char) (cs : List Char) :
    s.after (c :: cs) = (s.step c).after cs := rfl

theorem UnionScan.after_append (s : UnionScan) (a b : List Char) :
    s.after (a ++ b) = (s.after a).after b := List.foldl_append

theorem UnionScan.step_bar (h : s.cuts = true) : s.step '|' = start := by
  obtain ⟨opened, inResult, afterEquals⟩ := s
  obtain ⟨rfl, rfl⟩ : opened = 0 ∧ inResult = false := by simpa [cuts] using h
  cases afterEquals <;> rfl

/-- The alternative that has begun goes on with what is left of the text. -/
theorem alternativesFrom_eq_cons (s : UnionScan) (current cs : List Char) :
    ∃ more others, alternativesFrom s current cs = (current.reverse ++ more) :: others := by
  induction cs generalizing s current with
  | nil => exact ⟨[], [], by rw [alternativesFrom, List.append_nil]⟩
  | cons c rest ih =>
    rw [alternativesFrom]
    split
    · exact ⟨[], _, by rw [List.append_nil]⟩
    · obtain ⟨more, others, h⟩ := ih (s.step c) (c :: current)
      exact ⟨c :: more, others, by rw [h, List.reverse_cons, List.append_assoc]; rfl⟩

/-- A bar that cuts separates what is read before it from what is read behind it. -/
theorem alternativesFrom_append_of_cuts (h : (s.after a).cuts = true) (current b : List Char) :
    alternativesFrom s current (a ++ '|' :: b) =
      alternativesFrom s current a ++ alternatives b := by
  induction a generalizing s current with
  | nil =>
    have hs : s.cuts = true := h
    rw [List.nil_append, alternativesFrom, alternativesFrom, if_pos ⟨rfl, hs⟩,
      UnionScan.step_bar hs, List.singleton_append, alternatives]
  | cons c rest ih =>
    rw [List.cons_append, alternativesFrom, alternativesFrom]
    split
    · rw [ih h, List.cons_append]
    · exact ih h _

/-- Any other bar belongs to the alternative that comes to its end before it. -/
theorem alternativesFrom_append_of_not_cuts (h : (s.after a).cuts = false)
    (current b : List Char) :
    ∃ front last more others, alternativesFrom s current a = front ++ [last] ∧
      alternativesFrom s current (a ++ '|' :: b) = front ++ (last ++ '|' :: more) :: others := by
  induction a generalizing s current with
  | nil =>
    obtain ⟨more, others, hmore⟩ := alternativesFrom_eq_cons (s.step '|') ('|' :: current) b
    refine ⟨[], current.reverse, more, others, rfl, ?_⟩
    have hnot : ¬('|' = '|' ∧ s.cuts = true) := fun hcut => Bool.false_ne_true (h.symm.trans hcut.2)
    rw [List.nil_append, alternativesFrom, if_neg hnot, hmore, List.reverse_cons,
      List.append_assoc]
    rfl
  | cons c rest ih =>
    rw [List.cons_append, alternativesFrom, alternativesFrom]
    split
    · obtain ⟨front, last, more, others, hrest, hwhole⟩ := ih h []
      exact ⟨current.reverse :: front, last, more, others, by rw [hrest]; rfl, by rw [hwhole]; rfl⟩
    · exact ih h (c :: current)

/-- Two texts with a bar in between are read one after the other if the first is complete, and
otherwise not even the first is read as it is. -/
theorem alternatives_append_iff (others : List (List Char)) :
    alternatives (a ++ '|' :: b) = alternatives a ++ others ↔
      Complete a ∧ alternatives b = others := by
  cases h : (UnionScan.start.after a).cuts with
  | true =>
    rw [alternatives, alternativesFrom_append_of_cuts h, ← alternatives, List.append_cancel_left_eq]
    exact (and_iff_right h).symm
  | false =>
    obtain ⟨front, last, more, rest, ha, hwhole⟩ :=
      alternativesFrom_append_of_not_cuts h [] b
    refine iff_of_false (fun heq => ?_) fun hcomplete =>
      Bool.false_ne_true (h.symm.trans hcomplete.1)
    rw [alternatives, alternatives, ha, hwhole, List.append_assoc,
      List.append_cancel_left_eq] at heq
    have hlast : last ++ '|' :: more = last := (List.cons.inj heq).1
    simp at hlast

/-- Joined texts are read as each of them is, if and only if all but the last are complete. -/
theorem alternatives_join_iff {texts : List String} (hne : texts ≠ []) :
    alternatives (Text.join "|" texts).toList = texts.flatMap (fun t => alternatives t.toList) ↔
      ∀ t ∈ texts.dropLast, Complete t.toList := by
  induction texts with
  | nil => exact absurd rfl hne
  | cons t rest ih =>
    by_cases hrest : rest = []
    · subst hrest
      simp [Text.join]
    · have hbar : "|".toList = ['|'] := rfl
      rw [Text.toList_join_cons hbar hrest, List.flatMap_cons, alternatives_append_iff, ih hrest,
        List.dropLast_cons_of_ne_nil hrest, List.forall_mem_cons]

end Bars

/-! ### The functions and names of a form -/

namespace TypeForm

mutual

/-- Whether one of the alternatives of a form is a function. -/
def offersFunction : TypeForm → Bool
  | .anyCallback => true
  | .callback _ => true
  | .union alternatives => anyOffersFunction alternatives
  | _ => false

def anyOffersFunction : List TypeForm → Bool
  | [] => false
  | f :: rest => offersFunction f || anyOffersFunction rest

end

mutual

/-- The names that are written in a form, those of containers included. -/
def names : TypeForm → List String
  | .named name => [name]
  | .union alternatives => namesOfAll alternatives
  | .container name element => name :: names element
  | .callback parameters => namesOfAll parameters
  | _ => []

def namesOfAll : List TypeForm → List String
  | [] => []
  | f :: rest => names f ++ namesOfAll rest

end

end TypeForm

/-- The characters that matter for where a bar stands. -/
def unionMarks : List Char := ['<', '(', '[', '{', '>', ')', ']', '}', '=']

def isUnmarked (cs : List Char) : Bool := cs.all fun c => !unionMarks.contains c

/-- That reading a text leaves the brackets as they were, and leads into a result or not. -/
def Leaves (cs : List Char) (result : Bool) : Prop :=
  ∀ s : UnionScan, s.afterEquals = false → s.after cs = s.within result

section Leaves

variable {a b cs : List Char} {r r' : Bool}

@[simp] theorem UnionScan.within_false (s : UnionScan) : s.within false = s := by
  obtain ⟨opened, inResult, afterEquals⟩ := s
  cases inResult <;> rfl

theorem Leaves.append (ha : Leaves a r) (hb : Leaves b r') : Leaves (a ++ b) (r || r') := by
  intro s hs
  have hbetween : (s.within r).afterEquals = false := hs
  rw [UnionScan.after_append, ha s hs, hb _ hbetween]
  simp only [UnionScan.within, Bool.or_assoc, Bool.and_or_distrib_right]

theorem leaves_nil : Leaves [] false := fun s _ => s.within_false.symm

theorem leaves_of_unmarked (h : isUnmarked cs = true) : Leaves cs false := by
  induction cs with
  | nil => exact leaves_nil
  | cons c rest ih =>
    obtain ⟨hc, hrest⟩ := Bool.and_eq_true_iff.1 h
    have hopen : opensBracket c = false := by
      simp_all [unionMarks, opensBracket]
    have hclose : closesBracket c = false := by
      simp_all [unionMarks, closesBracket]
    have hequals : c ≠ '=' := by
      simp_all [unionMarks]
    rintro ⟨opened, inResult, afterEquals⟩ rfl
    have hstep : UnionScan.step ⟨opened, inResult, false⟩ c = ⟨opened, inResult, false⟩ := by
      simp [UnionScan.step, hopen, hclose, hequals]
    rw [UnionScan.after_cons, hstep, ih hrest _ rfl]

/-- Nothing in brackets is in a result outside of them. -/
theorem Leaves.bracketed (h : Leaves cs r) {o c : Char} (hopen : opensBracket o = true)
    (hclose : closesBracket c = true) (hother : opensBracket c = false) :
    Leaves (o :: cs ++ [c]) false := by
  rintro ⟨opened, inResult, afterEquals⟩ rfl
  have hin : UnionScan.step ⟨opened, inResult, false⟩ o = ⟨opened + 1, inResult, false⟩ := by
    simp [UnionScan.step, hopen]
  have hthrough : UnionScan.after ⟨opened + 1, inResult, false⟩ cs =
      ⟨opened + 1, inResult, false⟩ := by
    rw [h _ rfl]
    simp [UnionScan.within]
  have hout : UnionScan.step ⟨opened + 1, inResult, false⟩ c = ⟨opened, inResult, false⟩ := by
    simp [UnionScan.step, hother, hclose]
  rw [List.cons_append, UnionScan.after_cons, UnionScan.after_append, hin, hthrough,
    UnionScan.after_cons, hout, UnionScan.after_nil, UnionScan.within_false]

theorem leaves_arrow : Leaves " => void".toList true := by
  rintro ⟨opened, inResult, afterEquals⟩ rfl
  rfl

theorem leaves_bar : Leaves "|".toList false := leaves_of_unmarked (by decide)

theorem Leaves.complete_iff (h : Leaves cs r) : Complete cs ↔ r = false := by
  rw [Complete, h .start rfl]
  cases r <;> decide

end Leaves

/-! ### Where a form ends -/

section Forms

theorem leaves_toString (n : Nat) : Leaves (toString n).toList false := by
  have hmarks : (unionMarks.all fun c => !c.isDigit) = true := by decide
  refine leaves_of_unmarked (List.all_eq_true.2 fun c hc => ?_)
  have hdigit := TypeForm.isDigit_of_mem_toString hc
  have hunmarked : c ∉ unionMarks := fun hmark => by
    simpa [hdigit] using List.all_eq_true.1 hmarks c hmark
  simpa using hunmarked

/-- Texts that each lead into a result or not. -/
abbrev AllLeave (texts : List String) (results : List Bool) : Prop :=
  List.Forall₂ (fun text result => Leaves text.toList result) texts results

theorem AllLeave.numbered {texts : List String} {results : List Bool} (h : AllLeave texts results)
    (n : Nat) : AllLeave (TypeForm.numbered n texts) results := by
  induction h generalizing n with
  | nil => exact .nil
  | cons head _ ih =>
    have harg : Leaves "arg".toList false := leaves_of_unmarked (by decide)
    have hcolon : Leaves ": ".toList false := leaves_of_unmarked (by decide)
    have hname := ((harg.append (leaves_toString n)).append hcolon).append head
    exact .cons (by simpa using hname) (ih (n + 1))

theorem AllLeave.join {joint : String} (hjoint : Leaves joint.toList false) {texts : List String}
    {results : List Bool} (h : AllLeave texts results) :
    Leaves (Text.join joint texts).toList (results.any id) := by
  induction h with
  | nil => exact leaves_nil
  | @cons text result texts results head rest ih =>
    cases rest with
    | nil => simpa [Text.join] using head
    | cons next more =>
      rw [Text.join_cons (List.cons_ne_nil _ _), String.toList_append, String.toList_append]
      simpa using (head.append hjoint).append ih

theorem leaves_brackets {text : String} {result : Bool} (h : Leaves text.toList result) :
    Leaves ("<" ++ text ++ ">").toList false ∧ Leaves ("(" ++ text ++ ")").toList false ∧
      Leaves ("[" ++ text ++ "]").toList false := by
  refine ⟨?_, ?_, ?_⟩
  · simpa using h.bracketed (o := '<') (c := '>') rfl rfl rfl
  · simpa using h.bracketed (o := '(') (c := ')') rfl rfl rfl
  · simpa using h.bracketed (o := '[') (c := ']') rfl rfl rfl

theorem leaves_anyArray : Leaves "Array<any>".toList false := by
  have hbase : Leaves "Array".toList false := leaves_of_unmarked (by decide)
  have helement : Leaves "any".toList false := leaves_of_unmarked (by decide)
  exact hbase.append (leaves_brackets helement).1

theorem leaves_anyCallbackText : Leaves TypeForm.anyCallbackText.toList true := by
  have hrest : Leaves "...args: any".toList false := leaves_of_unmarked (by decide)
  have hnone : Leaves "".toList false := leaves_nil
  have hbrackets : Leaves "[]".toList false := (leaves_brackets hnone).2.2
  have harray : Leaves "...args: any[]".toList false :=
    hrest.append hbrackets
  exact (leaves_brackets harray).2.1.append leaves_arrow

theorem anyOffersFunction_eq_any (fs : List TypeForm) :
    TypeForm.anyOffersFunction fs = (fs.map TypeForm.offersFunction).any id := by
  induction fs with
  | nil => rfl
  | cons f rest ih => rw [TypeForm.anyOffersFunction, ih]; rfl

mutual

/-- A form is left within a result if and only if it offers a function. -/
theorem TypeForm.leaves_render : ∀ f : TypeForm, (∀ name ∈ f.names, Leaves name.toList false) →
    Leaves f.render.toList f.offersFunction
  | .named name => fun h => h name (List.mem_singleton.2 rfl)
  | .any => fun _ => leaves_of_unmarked (by decide)
  | .anyCallback => fun _ => leaves_anyCallbackText
  | .anyArray => fun _ => leaves_anyArray
  | .untypedArray => fun _ => by
    have hremark : Leaves " /* ERROR: untyped array */".toList false :=
      leaves_of_unmarked (by decide)
    exact leaves_anyArray.append hremark
  | .missing => fun _ => leaves_of_unmarked (by decide)
  | .unsupported _ => fun _ => by
    have hremark : Leaves TypeForm.unresolvedText.toList false := leaves_of_unmarked (by decide)
    exact hremark
  | .noAlternatives => fun _ => leaves_of_unmarked (by decide)
  | .union alternatives => fun h => by
    rw [TypeForm.render, TypeForm.offersFunction, anyOffersFunction_eq_any]
    exact (TypeForm.leaves_renderAll alternatives h).join leaves_bar
  | .container name element => fun h => by
    obtain ⟨hname, helement⟩ := List.forall_mem_cons.1 h
    have hinner := (leaves_brackets (element.leaves_render helement)).1
    simpa [TypeForm.render, TypeForm.offersFunction] using hname.append hinner
  | .callback parameters => fun h => by
    have hcomma : Leaves ", ".toList false := leaves_of_unmarked (by decide)
    have hlist := ((TypeForm.leaves_renderAll parameters h).numbered 1).join hcomma
    have hwhole := (leaves_brackets hlist).2.1.append leaves_arrow
    simpa [TypeForm.render, TypeForm.offersFunction] using hwhole

theorem TypeForm.leaves_renderAll : ∀ fs : List TypeForm,
    (∀ name ∈ TypeForm.namesOfAll fs, Leaves name.toList false) →
      AllLeave (TypeForm.renderAll fs) (fs.map TypeForm.offersFunction)
  | [] => fun _ => .nil
  | f :: rest => fun h => by
    obtain ⟨hfirst, hrest⟩ := List.forall_mem_append.1 h
    exact .cons (f.leaves_render hfirst) (TypeForm.leaves_renderAll rest hrest)

end

theorem declared_arr (first : Json) (others : List Json) :
    (declared (.arr (first :: others))).value =
      Text.join "|" ((first :: others).map fun e => (declared e).value) := by
  rw [declared, ofJson_arr (List.cons_ne_nil _ _), TypeForm.write, TypeForm.render,
    TypeForm.renderAll_eq_map, List.map_map]
  rfl

/-- Whether each of the names in a type expression leaves the brackets as they were. -/
def NamesApart (e : Json) : Prop := ∀ name ∈ (ofJson e).names, Leaves name.toList false

theorem complete_declared_iff {e : Json} (h : NamesApart e) :
    Complete (declared e).value.toList ↔ (ofJson e).offersFunction = false :=
  (TypeForm.leaves_render _ h).complete_iff

/-- A list of types is read as the alternatives of its elements, one after another, if and only if
the texts of all elements but the last are complete. Where no name in them interferes with brackets
or arrows, that is if no element but the last offers a function. -/
theorem list_read_apart_iff (first : Json) (others : List Json) :
    (alternatives (declared (.arr (first :: others))).value.toList =
        (first :: others).flatMap (fun e => alternatives (declared e).value.toList) ↔
      ∀ e ∈ (first :: others).dropLast, Complete (declared e).value.toList) ∧
    ((∀ e ∈ (first :: others).dropLast, NamesApart e) →
      (alternatives (declared (.arr (first :: others))).value.toList =
          (first :: others).flatMap (fun e => alternatives (declared e).value.toList) ↔
        ∀ e ∈ (first :: others).dropLast, (ofJson e).offersFunction = false)) := by
  have hlaw : alternatives (declared (.arr (first :: others))).value.toList =
        (first :: others).flatMap (fun e => alternatives (declared e).value.toList) ↔
      ∀ e ∈ (first :: others).dropLast, Complete (declared e).value.toList := by
    rw [declared_arr]
    have hne : (first :: others).map (fun e => (declared e).value) ≠ [] := by simp
    have hjoin := alternatives_join_iff hne
    rwa [List.flatMap_map, ← List.map_dropLast, List.forall_mem_map] at hjoin
  refine ⟨hlaw, fun hnames => hlaw.trans ?_⟩
  exact forall₂_congr fun e he => complete_declared_iff (hnames e he)

end Forms

/-- Alternatives with bars and functions inside brackets, and a function at the end. -/
def nestedFunctions : List Json :=
  [.obj [("type", .arr [.str "Number", .str "Promise<A|B>"])], .str "Array<Callback<String>>",
    .str "Callback<A|B>"]

theorem list_read_apart_iff_nestedFunctions :
    (∀ e ∈ nestedFunctions.dropLast, NamesApart e) ∧
      (alternatives (declared (.arr nestedFunctions)).value.toList).map String.ofList =
        ["number", "Promise<A|B>", "Array<(arg1: string) => void>", "(arg1: A|B) => void"] := by
  have hpromise : Leaves "Promise<A|B>".toList false := by
    have hbase : Leaves "Promise".toList false := leaves_of_unmarked (by decide)
    have hargument : Leaves "A|B".toList false := leaves_of_unmarked (by decide)
    exact hbase.append (leaves_brackets hargument).1
  have hnumber : Leaves "number".toList false := leaves_of_unmarked (by decide)
  have harray : Leaves "Array".toList false := leaves_of_unmarked (by decide)
  have hstring : Leaves "string".toList false := leaves_of_unmarked (by decide)
  have hnames : ∀ e ∈ nestedFunctions.dropLast, NamesApart e := by
    refine List.forall_mem_cons.2 ⟨?_, List.forall_mem_singleton.2 ?_⟩
    · have hfirst : (ofJson (.obj [("type", .arr [.str "Number", .str "Promise<A|B>"])])).names =
          ["number", "Promise<A|B>"] := by decide +kernel
      rw [NamesApart, hfirst]
      exact List.forall_mem_cons.2 ⟨hnumber, List.forall_mem_singleton.2 hpromise⟩
    · have hsecond : (ofJson (.str "Array<Callback<String>>")).names = ["Array", "string"] := by
        decide +kernel
      rw [NamesApart, hsecond]
      exact List.forall_mem_cons.2 ⟨harray, List.forall_mem_singleton.2 hstring⟩
  refine ⟨hnames, ?_⟩
  have hlaw := ((list_read_apart_iff _ _).2 hnames).2 (by decide +kernel)
  rw [nestedFunctions, hlaw]
  decide +kernel

/-- A function takes the alternatives behind it for a part of what it returns. -/
theorem list_read_as_one_functionFirst :
    (alternatives (declared (.arr [.str "Callback<String>", .str "Number"])).value.toList).map
        String.ofList = ["(arg1: string) => void|number"] ∧
      ([Json.str "Callback<String>", .str "Number"].flatMap
          fun e => alternatives (declared e).value.toList).map String.ofList =
        ["(arg1: string) => void", "number"] := by
  decide +kernel

end ApiTypings.TypeText
