import ApiTypings.Proofs.Text.Occurrence
import ApiTypings.Proofs.TypeText.Reading
import Mathlib.Algebra.BigOperators.Group.List.Basic

/-!
Fallbacks and their reports.

A type that cannot be told is flagged where it is written and reported by a warning. Flags are
counted in the text and warnings in the journal, form by form: no flag reaches across what a form
puts between its parts, and a text without a flag gets none by being corrected or taken apart. What
is flagged but not reported is a choice between no alternatives. Apart from that there are only
flags that a description writes itself: the argument of a list may be what a flag has behind its
first bracket.
-/

namespace ApiTypings.TypeText

open Text

/-! ### Flags in texts -/

/-- That none of some characters is in a text. -/
def Lacks (cs chars : List Char) : Prop := ∀ c ∈ chars, c ∉ cs

instance (cs chars : List Char) : Decidable (Lacks cs chars) := List.decidableBAll _ chars

/-- What flags begin with. -/
def flagStarts : List Char := ['A', 'n']

/-- A text that no form breaks: it begins with a character that the name of a parameter lacks, and
what stands between the parts of a form is not in it. -/
structure IsFlag (part : List Char) : Prop where
  ne_nil : part ≠ []
  begins : ∀ c ∈ part.head?, c ∈ flagStarts
  unbroken : Lacks part ['|', ',', '(', ')']

instance (part : List Char) : Decidable (IsFlag part) :=
  decidable_of_iff (part ≠ [] ∧ part.head?.all (· ∈ flagStarts) ∧
    Lacks part ['|', ',', '(', ')']) <| by
    simp only [Option.all_eq_true, decide_eq_true_eq]
    exact ⟨fun ⟨hne, hbegins, hunbroken⟩ => ⟨hne, hbegins, hunbroken⟩,
      fun h => ⟨h.ne_nil, h.begins, h.unbroken⟩⟩

theorem isFlag_unresolvedText : IsFlag TypeForm.unresolvedText.toList := by decide

theorem isFlag_untypedArrayText : IsFlag TypeForm.untypedArrayText.toList := by decide

section Parts

variable {part : List Char}

/-- A flag is not found in a text without the characters that flags begin with. -/
theorem IsFlag.occurrences_skip (h : IsFlag part) {front : List Char}
    (hfront : Lacks front flagStarts) (back : List Char) :
    occurrences part (front ++ back) = occurrences part back :=
  Text.occurrences_skip h.ne_nil (fun c hc => hfront c (h.begins c hc)) back

theorem IsFlag.occurrences_union (h : IsFlag part) (texts : List String) :
    occurrences part (join "|" texts).toList =
      (texts.map fun s => occurrences part s.toList).sum :=
  (divides_singleton h.ne_nil (h.unbroken '|' (by decide))).occurrences_join h.ne_nil texts

/-- There is no flag in the name of a parameter. -/
theorem lacks_parameterName (n : Nat) : Lacks ("arg" ++ toString n ++ ": ").toList flagStarts := by
  have hfront : Lacks "arg".toList flagStarts := by decide
  have hbehind : Lacks ": ".toList flagStarts := by decide
  have hnone : flagStarts.all (fun c => !c.isDigit) = true := by decide
  intro c hc hmem
  rw [String.toList_append, String.toList_append, List.mem_append, List.mem_append] at hmem
  have hdigit : c.isDigit = true := TypeForm.isDigit_of_mem_toString
    ((hmem.resolve_right (hbehind c hc)).resolve_left (hfront c hc))
  simpa [hdigit] using List.all_eq_true.1 hnone c hc

theorem IsFlag.occurrences_numbered (h : IsFlag part) (texts : List String) (n : Nat) :
    (TypeForm.numbered n texts).map (fun s => occurrences part s.toList) =
      texts.map fun s => occurrences part s.toList := by
  induction texts generalizing n with
  | nil => rfl
  | cons t rest ih =>
      rw [TypeForm.numbered, List.map_cons, List.map_cons, ih, String.toList_append,
        h.occurrences_skip (lacks_parameterName n)]

theorem IsFlag.occurrences_callback (h : IsFlag part) (texts : List String) :
    occurrences part ("(" ++ join ", " (TypeForm.numbered 1 texts) ++ ") => void").toList =
      (texts.map fun s => occurrences part s.toList).sum := by
  have hspace : Lacks [' '] flagStarts := by decide
  have hcomma : Divides part ", ".toList := by
    have hjoint : ", ".toList = [','] ++ [' '] := by decide
    rw [hjoint]
    exact (divides_singleton h.ne_nil (h.unbroken ',' (by decide))).skip h.ne_nil fun c hc =>
      hspace c (h.begins c hc)
  have hend : occurrences part " => void".toList = 0 := by
    have hletters : Lacks " => void".toList flagStarts := by decide
    rw [← List.append_nil " => void".toList, h.occurrences_skip hletters, occurrences_nil h.ne_nil]
  have hopen : Lacks "(".toList flagStarts := by decide
  have hclose : ") => void".toList = ')' :: " => void".toList := by decide
  rw [String.toList_append, String.toList_append, List.append_assoc, h.occurrences_skip hopen,
    hclose, occurrences_append_cons h.ne_nil (h.unbroken ')' (by decide)), hend, Nat.add_zero,
    hcomma.occurrences_join h.ne_nil, h.occurrences_numbered]

end Parts

/-- How many flags there are in a text. -/
def flags (cs : List Char) : Nat :=
  occurrences TypeForm.unresolvedText.toList cs + occurrences TypeForm.untypedArrayText.toList cs

theorem flags_union (texts : List String) :
    flags (join "|" texts).toList = (texts.map fun s => flags s.toList).sum := by
  rw [flags, isFlag_unresolvedText.occurrences_union, isFlag_untypedArrayText.occurrences_union]
  exact List.sum_map_add.symm

theorem flags_callback (texts : List String) :
    flags ("(" ++ join ", " (TypeForm.numbered 1 texts) ++ ") => void").toList =
      (texts.map fun s => flags s.toList).sum := by
  rw [flags, isFlag_unresolvedText.occurrences_callback,
    isFlag_untypedArrayText.occurrences_callback]
  exact List.sum_map_add.symm

/-! ### Flags of lists -/

/-- What the flag of an untyped list has behind its first bracket. -/
def untypedRest : List Char := "any> /* ERROR: untyped array */".toList

/-- Whether a container becomes the flag of an untyped list by what its element is written as. -/
def imitates (base : String) (element : TypeForm) : Bool :=
  base == "Array" && untypedRest.isPrefixOf element.render.toList

theorem occurrences_unresolvedText_container {base : String}
    (hbase : base ∈ ["Array", "Dictionary"]) (text : String) :
    occurrences TypeForm.unresolvedText.toList (base ++ "<" ++ text ++ ">").toList =
      occurrences TypeForm.unresolvedText.toList text.toList := by
  have hnone : ∀ base ∈ ["Array", "Dictionary"],
      occurrences TypeForm.unresolvedText.toList base.toList = 0 := by decide
  have hparts : (base ++ "<" ++ text ++ ">").toList =
      base.toList ++ '<' :: (text.toList ++ ['>']) := by
    simp
  rw [hparts, occurrences_append_cons (by decide) (by decide), hnone base hbase, Nat.zero_add,
    occurrences_concat (by decide) (by decide)]

theorem occurrences_untypedArrayText_array (text : String) :
    occurrences TypeForm.untypedArrayText.toList ("Array" ++ "<" ++ text ++ ">").toList =
      occurrences TypeForm.untypedArrayText.toList text.toList +
        if untypedRest.isPrefixOf text.toList then 1 else 0 := by
  have hparts : ("Array" ++ "<" ++ text ++ ">").toList =
      'A' :: ("rray<".toList ++ (text.toList ++ ['>'])) := by
    simp
  -- A flag that begins outside of the element begins the list, and cannot end with its last bracket.
  have hopening : TypeForm.untypedArrayText.toList.isPrefixOf
      ('A' :: ("rray<".toList ++ (text.toList ++ ['>']))) = untypedRest.isPrefixOf text.toList := by
    have hflag : TypeForm.untypedArrayText.toList = "Array<".toList ++ untypedRest := by decide
    have hlast : untypedRest ≠ text.toList ++ ['>'] := fun h =>
      absurd (congrArg List.getLast? h) (by rw [List.getLast?_concat]; decide)
    have hwhole : 'A' :: ("rray<".toList ++ (text.toList ++ ['>'])) =
        "Array<".toList ++ (text.toList ++ ['>']) := by simp
    refine isPrefixOf_congr ?_
    rw [hflag, hwhole, List.prefix_append_right_inj, List.prefix_concat_iff, or_iff_right hlast]
  rw [hparts, occurrences_cons, hopening, isFlag_untypedArrayText.occurrences_skip (by decide),
    occurrences_concat (by decide) (by decide), Nat.add_comm]

theorem occurrences_untypedArrayText_dictionary (text : String) :
    occurrences TypeForm.untypedArrayText.toList ("Dictionary" ++ "<" ++ text ++ ">").toList =
      occurrences TypeForm.untypedArrayText.toList text.toList := by
  have hparts : ("Dictionary" ++ "<" ++ text ++ ">").toList =
      "Dictionary<".toList ++ (text.toList ++ ['>']) := by
    simp
  have hbase : ∀ c ∈ TypeForm.untypedArrayText.toList.head?, c ∉ "Dictionary<".toList := by
    rintro c hc
    obtain rfl : 'A' = c := Option.some.inj hc
    decide
  rw [hparts, Text.occurrences_skip (by decide) hbase, occurrences_concat (by decide) (by decide)]

theorem flags_container {base : String} (hbase : base ∈ ["Array", "Dictionary"])
    (element : TypeForm) :
    flags (base ++ "<" ++ element.render ++ ">").toList =
      flags element.render.toList + if imitates base element then 1 else 0 := by
  rw [flags, occurrences_unresolvedText_container hbase]
  simp only [List.mem_cons, List.not_mem_nil, or_false] at hbase
  rcases hbase with rfl | rfl
  · rw [occurrences_untypedArrayText_array, ← Nat.add_assoc]
    rfl
  · rw [occurrences_untypedArrayText_dictionary]
    rfl

/-! ### Forms -/

namespace TypeForm

mutual

/-- How many containers of a form become the flag of an untyped list. -/
def imitations : TypeForm → Nat
  | .union alternatives => imitationsOfAll alternatives
  | .container base element => imitations element + if imitates base element then 1 else 0
  | .callback parameters => imitationsOfAll parameters
  | _ => 0

def imitationsOfAll : List TypeForm → Nat
  | [] => 0
  | f :: rest => imitations f + imitationsOfAll rest

end

theorem imitationsOfAll_eq_sum (forms : List TypeForm) :
    imitationsOfAll forms = (forms.map imitations).sum := by
  induction forms with
  | nil => rfl
  | cons f rest ih => rw [imitationsOfAll, ih, List.map_cons, List.sum_cons]

/-- The account of a form: each flag that is written is reported, is one of those that are known not
to be, or is an imitation. -/
def Accounts (f : TypeForm) (silent : Nat) : Prop :=
  flags f.render.toList = f.warnings.length + silent + f.imitations

instance (f : TypeForm) (silent : Nat) : Decidable (Accounts f silent) :=
  inferInstanceAs (Decidable (_ = _))

/-- A form that is written as unresolved is reported. -/
theorem accounts_unresolved (shown : String) :
    Accounts .missing 0 ∧ Accounts (.unsupported shown) 0 := by
  have hflag : flags unresolvedText.toList = 1 := by decide
  exact ⟨hflag, hflag⟩

section Parts

variable {α : Type} {as : List α} {silent : α → Nat} (form : α → TypeForm)

theorem sum_flags (h : ∀ a ∈ as, Accounts (form a) (silent a)) :
    ((renderAll (as.map form)).map fun s => flags s.toList).sum =
      (warningsOfAll (as.map form)).length + (as.map silent).sum +
        imitationsOfAll (as.map form) := by
  rw [renderAll_eq_map, warningsOfAll_eq_flatMap, imitationsOfAll_eq_sum, List.length_flatMap]
  simp only [List.map_map]
  rw [← List.sum_map_add, ← List.sum_map_add]
  exact congrArg List.sum (List.map_congr_left h)

theorem accounts_union (h : ∀ a ∈ as, Accounts (form a) (silent a)) :
    Accounts (.union (as.map form)) (as.map silent).sum := by
  rw [Accounts, render, flags_union, sum_flags form h, warnings, imitations]

theorem accounts_callback (h : ∀ a ∈ as, Accounts (form a) (silent a)) :
    Accounts (.callback (as.map form)) (as.map silent).sum := by
  rw [Accounts, render, flags_callback, sum_flags form h, warnings, imitations]

end Parts

theorem accounts_container {base : String} (hbase : base ∈ ["Array", "Dictionary"])
    {element : TypeForm} {silent : Nat} (h : Accounts element silent) :
    Accounts (.container base element) silent := by
  rw [Accounts, render, flags_container hbase, h, warnings, imitations, Nat.add_assoc]

end TypeForm

/-! ### Names -/

/-- A text without a flag stays without one. -/
theorem hereditary_flagless {flag : List Char} (hne : flag ≠ []) (hnew : ∀ r ∈ renames,
    Separates flag r.2.toList ∧ occurrences flag r.2.toList = 0) :
    Hereditary fun cs => occurrences flag cs = 0 where
  piece hpiece hwhole :=
    occurrences_eq_zero_iff.2 fun hflag => occurrences_eq_zero_iff.1 hwhole (hflag.trans hpiece)
  corrected hcs := by
    refine rename_induction (P := fun cs => occurrences flag cs = 0) hcs fun r hr cs hcs => ?_
    have hle := occurrences_replaceChars_le hne (hnew r hr).1 (hnew r hr).2 r.1.toList cs
    exact Nat.le_zero.1 (hcs ▸ hle)

theorem hereditary_flags : Hereditary fun cs => flags cs = 0 := by
  have hunresolved : Hereditary fun cs => occurrences TypeForm.unresolvedText.toList cs = 0 :=
    hereditary_flagless (by decide) (by decide)
  have huntyped : Hereditary fun cs => occurrences TypeForm.untypedArrayText.toList cs = 0 :=
    hereditary_flagless (by decide) (by decide)
  simpa only [flags, Nat.add_eq_zero_iff] using hunresolved.and huntyped

theorem accounts_ofName {cs : List Char} (h : flags cs = 0) : (ofName cs).Accounts 0 := by
  have hnone {forms : List TypeForm} : (forms.map fun _ => 0).sum = 0 := by simp
  refine ofName_induction (motive := fun f => f.Accounts 0) hereditary_flags ?_ ?_ ?_ ?_ ?_ h
  · decide
  · intro name hname
    rw [TypeForm.Accounts, TypeForm.render, hname]
    rfl
  · intro alternatives halternatives
    have hunion := TypeForm.accounts_union id halternatives
    rwa [List.map_id, hnone] at hunion
  · intro base hbase element helement
    exact TypeForm.accounts_container hbase helement
  · intro parameters hparameters
    have hcallback := TypeForm.accounts_callback id hparameters
    rwa [List.map_id, hnone] at hcallback

/-! ### Imitations -/

/-- That neither a form nor one that is written around it becomes a flag. -/
def Genuine (f : TypeForm) : Prop :=
  f.imitations = 0 ∧ untypedRest.isPrefixOf f.render.toList = false

instance (f : TypeForm) : Decidable (Genuine f) := inferInstanceAs (Decidable (_ ∧ _))

theorem isPrefixOf_untypedRest_append {front : String} {c : Char}
    (hfront : front.toList.head? = some c) (hc : c ≠ 'a') (back : String) :
    untypedRest.isPrefixOf (front ++ back).toList = false := by
  refine isPrefixOf_eq_false.2 ?_
  rintro ⟨more, hmore⟩
  have hhead : (untypedRest ++ more).head? = some 'a' := rfl
  rw [hmore, String.toList_append, List.head?_append, hfront] at hhead
  exact hc (Option.some.inj hhead)

theorem genuine_union {alternatives : List TypeForm} (h : ∀ f ∈ alternatives, Genuine f) :
    Genuine (.union alternatives) := by
  constructor
  · rw [TypeForm.imitations, TypeForm.imitationsOfAll_eq_sum]
    exact List.sum_eq_zero (List.forall_mem_map.2 fun f hf => (h f hf).1)
  · rw [TypeForm.render, TypeForm.renderAll_eq_map]
    cases alternatives with
    | nil => decide
    | cons f rest =>
        have hfirst := (h f List.mem_cons_self).2
        rw [List.map_cons]
        by_cases hrest : rest.map TypeForm.render = []
        · rw [hrest]
          exact hfirst
        · have hbar : "|".toList = ['|'] := rfl
          rw [toList_join_cons hbar hrest, isPrefixOf_append_cons (by decide)]
          exact hfirst

theorem genuine_ofName {cs : List Char} (h : occurrences untypedRest cs = 0) :
    Genuine (ofName cs) := by
  have hereditary : Hereditary fun cs => occurrences untypedRest cs = 0 :=
    hereditary_flagless (by decide) (by decide)
  refine ofName_induction hereditary ?_ ?_ ?_ ?_ ?_ h
  · decide
  · intro name hname
    refine ⟨rfl, isPrefixOf_eq_false.2 fun hprefix => ?_⟩
    exact occurrences_eq_zero_iff.1 hname hprefix.isInfix
  · exact fun alternatives => genuine_union
  · intro base hbase element helement
    rw [Genuine, TypeForm.imitations, helement.1, imitates, helement.2, Bool.and_false,
      TypeForm.render, String.append_assoc, String.append_assoc]
    simp only [List.mem_cons, List.not_mem_nil, or_false] at hbase
    rcases hbase with rfl | rfl
    · exact ⟨rfl, isPrefixOf_untypedRest_append rfl (by decide) _⟩
    · exact ⟨rfl, isPrefixOf_untypedRest_append rfl (by decide) _⟩
  · intro parameters hparameters
    -- The imitations of a callback are counted as those of a choice between its parameters.
    rw [Genuine, TypeForm.render, String.append_assoc]
    exact ⟨(genuine_union hparameters).1, isPrefixOf_untypedRest_append rfl (by decide) _⟩

/-- Only a text with what a flag has behind its first bracket leads to an imitation. -/
theorem imitations_ofJson {e : Json}
    (h : ∀ s, .str s ∈ readParts e → occurrences untypedRest s.toList = 0) :
    (ofJson e).imitations = 0 := by
  have hgenuine : Genuine (ofJson e) :=
    have hunresolved : untypedRest.isPrefixOf TypeForm.unresolvedText.toList = false := by decide
    ofJson_induction ⟨rfl, hunresolved⟩ (fun _ => ⟨rfl, hunresolved⟩) ⟨rfl, hunresolved⟩
      (fun _ => genuine_union) fun s hs => genuine_ofName (h s hs)
  exact hgenuine.1

/-! ### Expressions -/

/-- Whether an expression is a choice between no alternatives. -/
def isEmptyChoice : Json → Bool
  | .arr [] => true
  | .obj [] => true
  | _ => false

theorem isEmptyChoice_eq_false {v : Json} (h : v ∉ [Json.arr [], .obj []]) :
    isEmptyChoice v = false := by
  unfold isEmptyChoice
  split <;> simp_all

/-- What is declared for an expression accounts for the empty choices that are read in it. -/
theorem accounts_ofJson {e : Json} (h : ∀ s, .str s ∈ readParts e → flags s.toList = 0) :
    (ofJson e).Accounts ((readParts e).countP isEmptyChoice) := by
  induction e using expression_induction with
  | scalar v hv =>
      cases v with
      | null => exact (TypeForm.accounts_unresolved "").1
      | str s => exact accounts_ofName (h s List.mem_cons_self)
      | arr items => simp [Json.nameKey?] at hv
      | obj fields => simp [Json.nameKey?] at hv
      | bool b => exact (TypeForm.accounts_unresolved (Json.inspect (.bool b))).2
      | int n => exact (TypeForm.accounts_unresolved (Json.inspect (.int n))).2
      | float x => exact (TypeForm.accounts_unresolved (Json.inspect (.float x))).2
  | empty v hv =>
      simp only [List.mem_cons, List.not_mem_nil, or_false] at hv
      have hnone : TypeForm.noAlternatives.Accounts 1 := by decide
      rcases hv with rfl | rfl
      · exact hnone
      · exact hnone
  | list items hne ih =>
      have hfull : isEmptyChoice (.arr items) = false :=
        isEmptyChoice_eq_false (by simpa using hne)
      rw [readParts_arr] at h ⊢
      rw [ofJson_arr hne, List.countP_cons_of_neg (by simp [hfull]), List.countP_flatMap]
      have hitems : ∀ v ∈ items, (ofJson v).Accounts ((readParts v).countP isEmptyChoice) :=
        fun v hv => ih v hv fun s hs =>
          h s (List.mem_cons_of_mem _ (List.mem_flatMap.2 ⟨v, hv, hs⟩))
      exact TypeForm.accounts_union ofJson hitems
  | wrapped fields v htype ih =>
      have hne : fields ≠ [] := by
        rintro rfl
        cases htype
      have hfull : isEmptyChoice (.obj fields) = false :=
        isEmptyChoice_eq_false (by simpa using hne)
      rw [readParts_of_wrapped htype] at h ⊢
      rw [ofJson_of_wrapped htype, List.countP_cons_of_neg (by simp [hfull])]
      exact ih fun s hs => h s (List.mem_cons_of_mem _ hs)
  | keyed fields hne htype ih =>
      have hfull : isEmptyChoice (.obj fields) = false :=
        isEmptyChoice_eq_false (by simpa using hne)
      rw [readParts_of_keyed htype] at h ⊢
      rw [ofJson_of_keyed htype hne, List.countP_cons_of_neg (by simp [hfull]),
        List.countP_flatMap]
      have hentries : ∀ entry ∈ fields,
          (ofJson entry.2).Accounts ((readParts entry.2).countP isEmptyChoice) :=
        fun entry hentry => ih entry hentry fun s hs =>
          h s (List.mem_cons_of_mem _ (List.mem_flatMap.2 ⟨entry, hentry, hs⟩))
      exact TypeForm.accounts_union (fun entry : String × Json => ofJson entry.2) hentries

/-- How many warnings a journal has. -/
def warningCount (log : List Entry) : Nat := log.countP (·.level == .warning)

theorem warningCount_declared (e : Json) :
    warningCount (declared e).log = (declared e).log.length :=
  List.countP_eq_length.2 fun entry hentry => by
    rw [(TypeForm.of_mem_warnings (ofJson e) hentry).1]
    rfl

/-- If no name that is read has a flag in it, the flags in a declared type are those of the fallbacks
that are reported, of the empty choices and of the imitations. So all flags are reported unless
there are empty choices or imitations. -/
theorem flags_declared {e : Json} (h : ∀ s, .str s ∈ readParts e → flags s.toList = 0) :
    flags (declared e).value.toList = warningCount (declared e).log +
      (readParts e).countP isEmptyChoice + (ofJson e).imitations ∧
    (flags (declared e).value.toList = warningCount (declared e).log ↔
      (∀ v ∈ readParts e, isEmptyChoice v = false) ∧ (ofJson e).imitations = 0) ∧
    ((∀ s, .str s ∈ readParts e → occurrences untypedRest s.toList = 0) →
      (ofJson e).imitations = 0) := by
  have hflags : flags (declared e).value.toList = (declared e).log.length +
      (readParts e).countP isEmptyChoice + (ofJson e).imitations := accounts_ofJson h
  rw [warningCount_declared]
  refine ⟨hflags, ?_, imitations_ofJson⟩
  have hempty : (readParts e).countP isEmptyChoice = 0 ↔
      ∀ v ∈ readParts e, isEmptyChoice v = false := by
    simp only [List.countP_eq_zero, Bool.not_eq_true]
  rw [← hempty]
  omega

/-- Fallbacks of all kinds, among them one choice between nothing and one imitation. -/
def mixedFallbacks : Json :=
  .arr [.null, .obj [("type", .str "Callback<Array, Array<Array>|String>")],
    .obj [("a", .int 3), ("b", .arr [])], .str "Array< any> /* ERROR: untyped array */>"]

theorem flags_declared_mixedFallbacks :
    (∀ s, .str s ∈ readParts mixedFallbacks → flags s.toList = 0) ∧
      warningCount (declared mixedFallbacks).log = 4 ∧
      (readParts mixedFallbacks).countP isEmptyChoice = 1 ∧
      (ofJson mixedFallbacks).imitations = 1 ∧
      flags (declared mixedFallbacks).value.toList = 6 := by
  have hnames : ∀ s, .str s ∈ readParts mixedFallbacks → flags s.toList = 0 := by
    intro s hs
    simp only [mixedFallbacks, readParts, readItems, readWrapped, readFields, ↓reduceIte,
      String.reduceEq, List.append_nil, List.cons_append, List.nil_append, List.mem_cons,
      List.not_mem_nil, reduceCtorEq, Json.str.injEq, or_false, false_or] at hs
    rcases hs with rfl | rfl <;> decide
  have hwarnings : warningCount (declared mixedFallbacks).log = 4 := by
    rw [warningCount_declared]
    decide +kernel
  have hempty : (readParts mixedFallbacks).countP isEmptyChoice = 1 := by decide +kernel
  have himitations : (ofJson mixedFallbacks).imitations = 1 := by decide +kernel
  refine ⟨hnames, hwarnings, hempty, himitations, ?_⟩
  rw [(flags_declared hnames).1, hwarnings, hempty, himitations]

/-- A choice between nothing is flagged without a warning. -/
theorem flag_unreported_emptyChoice :
    (∀ s, .str s ∉ readParts (.arr [])) ∧
      (declared (.arr [])).value = "number /* ERROR: unresolved type */" ∧
      flags (declared (.arr [])).value.toList = 1 ∧ warningCount (declared (.arr [])).log = 0 := by
  refine ⟨by simp [readParts, readItems], ?_⟩
  decide +kernel

end ApiTypings.TypeText
