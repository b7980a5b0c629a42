import ApiTypings.Proofs.Suffix
import ApiTypings.Proofs.TypeText.Qualification

/-!
Alternatives in annotations.

The texts of alternatives are joined before dictionaries are qualified, and a dictionary goes up to
the last bracket of its line. So one that is opened in an alternative reaches for the brackets of
those behind it. Where it finds one with a dot before it, the two ends of what is qualified lie in
different alternatives: a bracket is lost at the far end and kept at the near one. This is the only
way in which alternatives interfere; all others are written as each of them is.
-/

namespace ApiTypings.TypeText.Closure

variable {a b : List Char} {e : String} {es rest : List String}

/-- That a dictionary which is opened in one text reaches into the text behind it: there is a
bracket there, and a dot somewhere before it. -/
def Reaches (a b : List Char) : Prop :=
  ∃ front opened inner after, a = front ++ ("Dictionary<".toList ++ opened) ∧
    b = inner ++ '>' :: after ∧ ('.' ∈ opened ∨ '.' ∈ inner)

/-! ### Dictionaries that do not reach further -/

theorem bar_not_mem_opening : '|' ∉ "Dictionary<".toList := by decide

theorem dotsBracket_append_bar (h : DotsBracket (a ++ '|' :: b)) :
    DotsBracket a ∨ ∃ inner after, b = inner ++ '>' :: after ∧ ('.' ∈ a ∨ '.' ∈ inner) := by
  obtain ⟨inner, after, hsplit, hdot⟩ := h
  rcases List.append_eq_append_iff.1 hsplit with ⟨more, rfl, hb⟩ | ⟨more, rfl, hb⟩
  · cases more with
    | nil => exact absurd (List.cons.inj hb).1 (by decide)
    | cons c more =>
      obtain ⟨rfl, rfl⟩ := List.cons.inj hb
      refine .inr ⟨more, after, rfl, ?_⟩
      simpa using hdot
  · cases more with
    | nil => exact absurd (List.cons.inj hb).1 (by decide)
    | cons c more =>
      obtain ⟨rfl, -⟩ := List.cons.inj hb
      exact .inl ⟨inner, more, rfl, hdot⟩

theorem asks_append_bar (h : Asks (a ++ '|' :: b)) : Asks a ∨ Asks b ∨ Reaches a b := by
  obtain ⟨before, container, name, after, hfirst, -, -⟩ := h.exists_first
  have hdots : DotsBracket (container ++ '.' :: (name ++ '>' :: after)) :=
    ⟨container ++ '.' :: name, after, by simp, by simp⟩
  cases ha : splitFirst? "Dictionary<".toList a with
  | none =>
    rw [splitFirst?_append_of_none opening_ne_nil bar_not_mem_opening ha] at hfirst
    obtain ⟨found, hfound, heq⟩ := Option.map_eq_some_iff.1 hfirst
    rw [← (Prod.mk.inj heq).2] at hdots
    exact .inr (.inl ⟨found.1, found.2, eq_of_splitFirst? hfound, hdots⟩)
  | some found =>
    rw [splitFirst?_append_of_some opening_ne_nil bar_not_mem_opening ha] at hfirst
    rw [← (Prod.mk.inj (Option.some.inj hfirst)).2] at hdots
    rcases dotsBracket_append_bar hdots with hfront | ⟨inner, after, hb, hdot⟩
    · exact .inl ⟨found.1, found.2, eq_of_splitFirst? ha, hfront⟩
    · exact .inr (.inr ⟨found.1, found.2, inner, after, eq_of_splitFirst? ha, hb, hdot⟩)

/-- What follows a bar is qualified on its own unless a dictionary reaches across the bar. -/
theorem qualifyLine_append_bar (h : ¬Reaches a b) :
    qualifyLine (a ++ '|' :: b) = qualifyLine a ++ '|' :: qualifyLine b := by
  by_cases ha : Asks a
  · obtain ⟨before, container, name, after, hfirst, hname, hafter⟩ := ha.exists_first
    have hclose : '>' ∉ b := by
      intro hmem
      obtain ⟨inner, behind, hb, -⟩ := Text.exists_last hmem
      exact h ⟨_, _, inner, behind, eq_of_splitFirst? hfirst, hb, .inl (by simp)⟩
    have hb : ¬Asks b := by
      rintro ⟨front, rest, rfl, inner, behind, rfl, -⟩
      exact hclose (by simp)
    have hjoined := splitFirst?_append_of_some opening_ne_nil bar_not_mem_opening hfirst b
    rw [List.append_assoc, List.cons_append, List.append_assoc, List.cons_append] at hjoined
    have hbehind : '>' ∉ after ++ '|' :: b := by simp [hafter, hclose]
    rw [qualifyLine_of_first hjoined hname hbehind, qualifyLine_of_first hfirst hname hafter,
      qualifyLine_of_not_asks hb, List.append_assoc _ after]
  · rw [qualifyLine_of_not_asks ha]
    by_cases hb : Asks b
    · obtain ⟨before, container, name, after, hfirst, hname, hafter⟩ := hb.exists_first
      have hnone : splitFirst? "Dictionary<".toList a = none := by
        refine Option.eq_none_iff_forall_ne_some.2 fun found hfound => h ?_
        exact ⟨found.1, found.2, before ++ ("Dictionary<".toList ++ (container ++ '.' :: name)),
          after, eq_of_splitFirst? hfound, by rw [eq_of_splitFirst? hfirst]; simp, .inr (by simp)⟩
      have hjoined := splitFirst?_append_of_none opening_ne_nil bar_not_mem_opening hnone b
      rw [hfirst, Option.map_some] at hjoined
      rw [qualifyLine_of_first hjoined hname hafter, qualifyLine_of_first hfirst hname hafter]
      simp
    · rw [qualifyLine_of_not_asks hb]
      exact qualifyLine_of_not_asks fun hasks => by simpa [ha, hb, h] using asks_append_bar hasks

/-! ### Dictionaries that do -/

/-- That every angle bracket which is opened is followed by one that closes. -/
def Closed : List Char → Prop
  | [] => True
  | c :: rest => (c = '<' → '>' ∈ rest) ∧ Closed rest

instance decidableClosed : DecidablePred Closed
  | [] => .isTrue trivial
  | c :: rest =>
    have := decidableClosed rest
    inferInstanceAs (Decidable ((c = '<' → '>' ∈ rest) ∧ Closed rest))

theorem Closed.mem {front back : List Char} (h : Closed (front ++ '<' :: back)) : '>' ∈ back := by
  induction front with
  | nil => exact h.1 rfl
  | cons c rest ih => exact ih h.2

/-- What comes before the first bracket cannot be made longer. -/
theorem append_ne_of_bracket {w u x y : List Char} (hw : '>' ∉ w) (hne : w ≠ []) :
    w ++ (u ++ x) ≠ u ++ '>' :: y := by
  -- The comparison moves on by one character, which goes from the front of `u` to the end of `w`.
  induction u generalizing w with
  | nil =>
    obtain ⟨c, w, rfl⟩ := List.exists_cons_of_ne_nil hne
    intro heq
    exact hw ((List.cons.inj heq).1 ▸ List.mem_cons_self)
  | cons c u ih =>
    obtain ⟨d, w, rfl⟩ := List.exists_cons_of_ne_nil hne
    intro heq
    obtain ⟨rfl, htail⟩ := List.cons.inj heq
    rw [List.mem_cons, not_or] at hw
    refine ih (w := w ++ [d]) (by simp [hw]) (by simp) ?_
    rw [List.append_assoc]
    exact htail

theorem append_bar_ne (l r inner : List Char) :
    l ++ '|' :: inner ≠ r ++ '|' :: (inner ++ ['>']) := by
  induction inner using List.reverseRecOn with
  | nil =>
    intro heq
    simpa using congrArg List.getLast? heq
  | append_singleton inner c ih =>
    intro heq
    rw [← List.cons_append, ← List.append_assoc, ← List.cons_append, ← List.append_assoc] at heq
    obtain ⟨htail, hc⟩ := List.append_inj' heq rfl
    obtain rfl := (List.cons.inj hc).1
    exact ih htail

/-- What a text has behind its first opening is not kept as it is when it is qualified. -/
theorem qualifyLine_append_ne {before opened : List Char}
    (hfirst : splitFirst? "Dictionary<".toList a = some (before, opened)) (hclose : '>' ∈ opened)
    (x y : List Char) : qualifyLine a ++ x ≠ before ++ (opened ++ y) := by
  by_cases ha : Asks a
  · obtain ⟨_, container, name, after, hasked, hname, hafter⟩ := ha.exists_first
    obtain ⟨rfl, rfl⟩ := Prod.mk.inj (Option.some.inj (hfirst.symm.trans hasked))
    rw [qualifyLine_of_first hfirst hname hafter]
    intro heq
    have hmark : dictionaryMark = '.' :: "_Dictionary_".toList := rfl
    refine append_ne_of_bracket (w := "_Dictionary_".toList) (u := name) (x := after ++ x)
      (y := after ++ y) (by decide) (by simp) ?_
    simpa only [hmark, List.append_assoc, List.cons_append, List.append_cancel_left_eq,
      List.cons.injEq, true_and] using heq
  · rw [qualifyLine_of_not_asks ha, eq_of_splitFirst? hfirst]
    intro heq
    obtain ⟨u, t, hsplit⟩ := List.append_of_mem hclose
    refine append_ne_of_bracket (w := "Dictionary<".toList) (u := u) (x := '>' :: t ++ x)
      (y := t ++ y) (by decide) (by simp) ?_
    simpa only [hsplit, List.append_assoc, List.cons_append, List.append_cancel_left_eq] using heq

/-- Across a bar that a dictionary reaches over, qualifying is not what it is on either side. -/
theorem qualifyLine_ne_of_reaches (hclosed : Closed a) (h : Reaches a b) {back : List Char}
    (hback : ¬DotsBracket b → back = b) :
    qualifyLine (a ++ '|' :: b) ≠ qualifyLine a ++ '|' :: back := by
  obtain ⟨front, opened, inner, behind, hfront, hb, hdot⟩ := h
  obtain ⟨before, middle, hfirst⟩ := exists_splitFirst? opening_ne_nil front opened
  rw [← hfront] at hfirst
  have hclose : '>' ∈ middle ++ opened := by
    have hopened : Closed (before ++ "Dictionary".toList ++ '<' :: (middle ++ opened)) := by
      rw [eq_of_splitFirst? hfirst] at hclosed
      simpa using hclosed
    exact hopened.mem
  have hjoined := splitFirst?_append_of_some opening_ne_nil bar_not_mem_opening hfirst b
  have hbehind : '>' ∈ b := by rw [hb]; simp
  obtain ⟨last, after, hlast, hafter⟩ := Text.exists_last hbehind
  by_cases hin : '.' ∈ last
  -- The last dot stands behind the bar: in front of it all brackets are kept.
  · obtain ⟨container, name, rfl, hname⟩ := Text.exists_last hin
    have hwhole : splitFirst? "Dictionary<".toList (a ++ '|' :: b) =
        some (before, (middle ++ opened ++ '|' :: container) ++ '.' :: (name ++ '>' :: after)) := by
      rw [hjoined, hlast]
      simp
    intro heq
    refine qualifyLine_append_ne hfirst hclose ('|' :: back)
      ('|' :: (container ++ dictionaryMark ++ name ++ after)) ?_
    rw [← heq, qualifyLine_of_first hwhole hname hafter]
    simp
  -- It stands in front: nothing is asked for behind the bar, but the last bracket is gone.
  · have hdots : ¬DotsBracket b := by rwa [hlast, dotsBracket_iff hafter]
    have hout : '.' ∈ middle ++ opened :=
      hdot.elim (List.mem_append_right middle) fun hin => absurd ⟨inner, behind, hb, hin⟩ hdots
    obtain ⟨container, name, hsplit, hname⟩ := Text.exists_last hout
    have hwhole : splitFirst? "Dictionary<".toList (a ++ '|' :: b) =
        some (before, container ++ '.' :: ((name ++ '|' :: last) ++ '>' :: after)) := by
      rw [hjoined, hsplit, hlast]
      simp
    have hundotted : '.' ∉ name ++ '|' :: last := by simp [hname, hin]
    rw [hback hdots, qualifyLine_of_first hwhole hundotted hafter]
    intro heq
    have hends : before ++ container ++ dictionaryMark ++ name ++ '|' :: last ++ after =
        qualifyLine a ++ '|' :: (last ++ ['>']) ++ after := by simpa [hlast] using heq
    exact append_bar_ne _ _ last (List.append_cancel_right hends)

/-! ### Joined alternatives -/

/-- That a dictionary which is opened in one of the alternatives reaches into those behind it. -/
def Crosses (es : List String) : Prop :=
  ∃ e rest, (e :: rest) <:+ es ∧ Reaches e.toList (Text.join "|" rest).toList

theorem not_crosses_nil : ¬Crosses [] := Suffix.not_exists_nil

theorem crosses_cons :
    Crosses (e :: rest) ↔ Reaches e.toList (Text.join "|" rest).toList ∨ Crosses rest :=
  Suffix.exists_cons

theorem not_reaches_nil (a : List Char) : ¬Reaches a [] := by
  rintro ⟨_, _, inner, _, -, hnil, -⟩
  exact absurd hnil.symm (List.append_ne_nil_of_right_ne_nil inner (List.cons_ne_nil _ _))

/-- An alternative that is qualified on its own. -/
def qualified (e : String) : String := String.ofList (qualifyLine e.toList)

theorem map_qualified_of_not_dots (h : ¬DotsBracket (Text.join "|" es).toList) :
    es.map qualified = es := by
  refine List.map_congr_left (g := id) (fun e he => ?_) |>.trans (List.map_id es)
  have hasks : ¬Asks e.toList := by
    rintro ⟨front, rest, hsplit, inner, after, rfl, hdot⟩
    obtain ⟨s, t, hjoin⟩ : e.toList <:+: (Text.join "|" es).toList := Text.infix_join he
    refine h ⟨s ++ front ++ "Dictionary<".toList ++ inner, after ++ t, ?_, ?_⟩
    · rw [← hjoin, hsplit]
      simp
    · exact List.mem_append_right _ hdot
  rw [qualified, qualifyLine_of_not_asks hasks, String.ofList_toList, id]

theorem qualified_join_iff (hclosed : ∀ e ∈ es, Closed e.toList) :
    qualified (Text.join "|" es) = Text.join "|" (es.map qualified) ↔ ¬Crosses es := by
  induction es with
  | nil => exact iff_of_true rfl not_crosses_nil
  | cons e rest ih =>
    rw [List.forall_mem_cons] at hclosed
    by_cases hne : rest = []
    · subst hne
      refine iff_of_true ?_ ?_
      · rw [List.map_singleton, Text.join, Text.join, String.intercalate_singleton,
          String.intercalate_singleton]
      · rw [crosses_cons, not_or]
        exact ⟨not_reaches_nil _, not_crosses_nil⟩
    · have hmap : rest.map qualified ≠ [] := by simpa using hne
      have hbar : "|".toList = ['|'] := rfl
      rw [crosses_cons, not_or, ← ih hclosed.2, ← String.toList_inj, ← String.toList_inj,
        List.map_cons, Text.toList_join_cons hbar hmap, qualified, String.toList_ofList,
        Text.toList_join_cons hbar hne, qualified, String.toList_ofList, qualified,
        String.toList_ofList]
      by_cases hreaches : Reaches e.toList (Text.join "|" rest).toList
      · refine iff_of_false (qualifyLine_ne_of_reaches hclosed.1 hreaches fun hdots => ?_)
          fun h => h.1 hreaches
        rw [map_qualified_of_not_dots hdots]
      · rw [qualifyLine_append_bar hreaches, List.append_cancel_left_eq, List.cons.injEq]
        simp [hreaches]

/-! ### Annotations -/

theorem annotation_str (hline : '\n' ∉ e.toList) :
    annotation (.str e) false false = qualified e := by
  by_cases hempty : e = ""
  · subst hempty
    rfl
  · have hpresent : (Json.str e).truthy = true := by simpa [Json.truthy] using hempty
    unfold annotation
    rw [if_pos hpresent, plain, qualify_of_single_line hline]
    simp [qualified]

theorem plainItems_map_str (es : List String) : plainItems (es.map .str) = es := by
  induction es with
  | nil => rfl
  | cons e rest ih => rw [List.map_cons, plainItems, plain, ih]

theorem annotation_arr (hline : ∀ e ∈ es, '\n' ∉ e.toList) :
    annotation (.arr (es.map .str)) false false = qualified (Text.join "|" es) := by
  by_cases hempty : es = []
  · subst hempty
    rfl
  · have hpresent : (Json.arr (es.map .str)).truthy = true := by
      simpa [Json.truthy] using hempty
    have hjoined : '\n' ∉ (Text.join "|" es).toList := by
      intro hmem
      rcases Text.mem_join hmem with hbar | ⟨e, he, hmem⟩
      · exact absurd hbar (by decide)
      · exact hline e he hmem
    unfold annotation
    rw [if_pos hpresent, plain, plainItems_map_str, qualify_of_single_line hjoined]
    simp [qualified]

/-- Alternatives are annotated as each of them is, if and only if no dictionary reaches across a
bar. -/
theorem annotation_alternatives_iff (hline : ∀ e ∈ es, '\n' ∉ e.toList)
    (hclosed : ∀ e ∈ es, Closed e.toList) :
    annotation (.arr (es.map .str)) false false =
        Text.join "|" (es.map fun e => annotation (.str e) false false) ↔
      ¬Crosses es := by
  have hsingle : es.map (fun e => annotation (.str e) false false) = es.map qualified :=
    List.map_congr_left fun e he => annotation_str (hline e he)
  rw [annotation_arr hline, hsingle, qualified_join_iff hclosed]

/-- A dictionary whose brackets are the last ones does not reach further. -/
theorem annotation_alternatives_iff_dottedDictionary :
    (∀ e ∈ ["Array<C>", "Dictionary<A.B>", "D"], '\n' ∉ e.toList) ∧
      (∀ e ∈ ["Array<C>", "Dictionary<A.B>", "D"], Closed e.toList) ∧
      annotation (.arr (["Array<C>", "Dictionary<A.B>", "D"].map .str)) false false =
        "Array<C>|A._Dictionary_B|D" ∧
      ¬Crosses ["Array<C>", "Dictionary<A.B>", "D"] := by
  have hline : ∀ e ∈ ["Array<C>", "Dictionary<A.B>", "D"], '\n' ∉ e.toList := by decide
  have hclosed : ∀ e ∈ ["Array<C>", "Dictionary<A.B>", "D"], Closed e.toList := by decide
  exact ⟨hline, hclosed, by decide, (annotation_alternatives_iff hline hclosed).1 (by decide)⟩

/-- A dictionary takes the closing bracket of the alternative behind it, and leaves its own. -/
theorem bracket_misplaced_behindDictionary :
    annotation (.arr (["Dictionary<A.B>", "Array<C>"].map .str)) false false =
        "A._Dictionary_B>|Array<C" ∧
      Text.join "|" (["Dictionary<A.B>", "Array<C>"].map
          fun e => annotation (.str e) false false) =
        "A._Dictionary_B|Array<C>" := by
  decide

end ApiTypings.TypeText.Closure
