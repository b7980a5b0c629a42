import ApiTypings.Proofs.TypeText.Spelling
import ApiTypings.Proofs.Text.Pieces

/-!
Reading a spelled term translates it.

Reading looks at the outside of a text only: at the base, if there is an argument text behind it,
and at the whole text where that is a name with a meaning of its own. For each kind of term this
gives one shape, with the texts of its parts cut out as they were spelled, so the translation of a
term follows from those of its parts. That an array of dictionaries has a meaning of its own makes
no difference: its element is translated to the same.
-/

namespace ApiTypings.TypeText

variable {c : Char} {cs base inner other arguments : List Char}

/-! ### Generic names -/

theorem generic?_of_not_mem (h : '<' ∉ cs) : generic? cs = none := by
  cases cs with
  | nil => rfl
  | cons c rest =>
    rw [generic?]
    split
    · split
      next hdrop =>
        have hmem : '<' ∈ rest.dropWhile isGenericChar := by rw [hdrop]; exact List.mem_cons_self
        have hrest := (List.dropWhile_sublist isGenericChar).subset hmem
        exact absurd (List.mem_cons_of_mem c hrest) h
      next => rfl
    · rfl

theorem generic?_enclosed (h : isDottedName base = true) (inner : List Char) :
    generic? (enclosed base inner) = some (base, inner) := by
  cases base with
  | nil => cases h
  | cons c rest =>
    rw [isDottedName, Bool.and_eq_true, List.all_eq_true] at h
    have hopen : ¬isGenericChar '<' = true := by decide
    rw [enclosed, List.cons_append, generic?, if_pos h.1, List.dropWhile_append_of_pos h.2,
      List.takeWhile_append_of_pos h.2, List.dropWhile_cons_of_neg hopen,
      List.takeWhile_cons_of_neg hopen, List.append_nil]
    simp

/-! ### Names with a meaning of their own -/

theorem takeWhile_enclosed (h : '<' ∉ base) (inner : List Char) :
    (enclosed base inner).takeWhile (· != '<') = base := by
  have hbase : ∀ c ∈ base, (c != '<') = true := fun c hc => bne_iff_ne.2 fun he => h (he ▸ hc)
  rw [enclosed, List.takeWhile_append_of_pos hbase, List.takeWhile_cons_of_neg (by simp),
    List.append_nil]

theorem enclosed_inj (h : '<' ∉ base) (hother : '<' ∉ other) :
    enclosed base inner = enclosed other arguments ↔ base = other ∧ inner = arguments := by
  constructor
  · intro heq
    have hbase : base = other := by
      rw [← takeWhile_enclosed h inner, heq, takeWhile_enclosed hother]
    subst hbase
    exact ⟨rfl, List.append_cancel_right (List.cons.inj (List.append_cancel_left heq)).2⟩
  · rintro ⟨rfl, rfl⟩
    rfl

theorem ofList_enclosed_ne {s : String} (h : '<' ∉ s.toList) :
    String.ofList (enclosed base inner) ≠ s := by
  rintro rfl
  simp [enclosed] at h

theorem ofList_enclosed_eq_iff {s : String} (h : '<' ∉ base) (hother : '<' ∉ other)
    (hs : s.toList = enclosed other arguments) :
    String.ofList (enclosed base inner) = s ↔ base = other ∧ inner = arguments := by
  rw [← String.toList_inj, String.toList_ofList, hs, enclosed_inj h hother]

theorem simpleForm?_enclosed (h : '<' ∉ base) (inner : List Char) :
    simpleForm? (String.ofList (enclosed base inner)) =
      if base = "Callback".toList ∧ (inner = "Object".toList ∨ inner = "Dictionary".toList) then
        some .anyCallback
      else if base = "Array".toList ∧ inner = "Dictionary".toList then some .anyArray
      else none := by
  have hobject : String.ofList (enclosed base inner) = "Callback<Object>" ↔
      base = "Callback".toList ∧ inner = "Object".toList :=
    ofList_enclosed_eq_iff h (by decide) rfl
  have hdictionary : String.ofList (enclosed base inner) = "Callback<Dictionary>" ↔
      base = "Callback".toList ∧ inner = "Dictionary".toList :=
    ofList_enclosed_eq_iff h (by decide) rfl
  have harray : String.ofList (enclosed base inner) = "Array<Dictionary>" ↔
      base = "Array".toList ∧ inner = "Dictionary".toList :=
    ofList_enclosed_eq_iff h (by decide) rfl
  have hname {s : String} (hs : '<' ∉ s.toList) : String.ofList (enclosed base inner) = s ↔ False :=
    iff_false_intro (ofList_enclosed_ne hs)
  simp only [simpleForm?, hobject, hdictionary, harray, hname (s := "Boolean") (by decide),
    hname (s := "Function") (by decide), hname (s := "Number") (by decide),
    hname (s := "String") (by decide), hname (s := "Object") (by decide),
    hname (s := "Dictionary") (by decide), hname (s := "Callback") (by decide),
    hname (s := "Array") (by decide), false_or, or_self, if_false, and_or_left]

/-! ### Shapes -/

theorem shapeOfClean_of_simple {form : TypeForm} (h : simpleForm? (String.ofList cs) = some form) :
    shapeOfClean cs = .leaf form := by
  rw [shapeOfClean, h]

theorem shapeOfClean_of_generic {found : List Char × List Char}
    (hsimple : simpleForm? (String.ofList cs) = none) (h : generic? cs = some found) :
    shapeOfClean cs =
      if found.1 = "Callback".toList then
        .callback ((splitArguments found.2).map (cutTopLevel '|'))
      else if found.1 = "Array".toList ∨ found.1 = "Dictionary".toList then
        .container (String.ofList found.1) (cutTopLevel '|' found.2)
      else .leaf (.named (String.ofList cs)) := by
  rw [shapeOfClean, hsimple, h]

theorem shapeOfClean_of_name (hsimple : simpleForm? (String.ofList cs) = none)
    (h : generic? cs = none) : shapeOfClean cs = .leaf (.named (String.ofList cs)) := by
  rw [shapeOfClean, hsimple, h]

theorem shapeOfClean_container (c : Container) (inner : List Char) :
    shapeOfClean (enclosed c.name.toList inner) =
      if c = .array ∧ inner = "Dictionary".toList then .leaf .anyArray
      else .container c.name (cutTopLevel '|' inner) := by
  have hcallback : c.name.toList ≠ "Callback".toList := by cases c <;> decide
  have hsimple := simpleForm?_enclosed (c.plain.not_mem rfl) inner
  rw [if_neg fun h => hcallback h.1] at hsimple
  split
  next hany =>
    obtain ⟨rfl, rfl⟩ := hany
    exact shapeOfClean_of_simple hsimple
  next hother =>
    have harray : c.name.toList = "Array".toList → c = .array := by cases c <;> decide
    have hgeneric := generic?_enclosed c.dotted inner
    have hread : c.name.toList = "Array".toList ∨ c.name.toList = "Dictionary".toList := by
      cases c <;> decide
    rw [if_neg fun h => hother ⟨harray h.1, h.2⟩] at hsimple
    rw [shapeOfClean_of_generic hsimple hgeneric, if_neg hcallback, if_pos hread,
      String.ofList_toList]

theorem shapeOfClean_callback (inner : List Char) :
    shapeOfClean (enclosed "Callback".toList inner) =
      if inner = "Object".toList ∨ inner = "Dictionary".toList then .leaf .anyCallback
      else .callback ((splitArguments inner).map (cutTopLevel '|')) := by
  have hsimple := simpleForm?_enclosed (plain_callback.not_mem rfl) inner
  split
  next hany =>
    rw [if_pos ⟨rfl, hany⟩] at hsimple
    exact shapeOfClean_of_simple hsimple
  next hother =>
    have hgeneric := generic?_enclosed dotted_callback inner
    rw [if_neg fun h => hother h.2, if_neg fun h => absurd h.1 (by decide)] at hsimple
    exact (shapeOfClean_of_generic hsimple hgeneric).trans (if_pos rfl)

theorem shapeOfClean_foreign (g : Foreign) :
    shapeOfClean (enclosed g.base g.raw) =
      .leaf (.named (String.ofList (enclosed g.base g.raw))) := by
  have hunread {s : String} (hs : s ∈ readBases) : g.base ≠ s.toList := fun h =>
    g.foreign (List.mem_map.2 ⟨s, hs, h.symm⟩)
  have harray : g.base ≠ "Array".toList := hunread (by decide)
  have hdictionary : g.base ≠ "Dictionary".toList := hunread (by decide)
  have hcallback : g.base ≠ "Callback".toList := hunread (by decide)
  have hsimple := simpleForm?_enclosed (g.plain.not_mem rfl) g.raw
  rw [if_neg fun h => hcallback h.1, if_neg fun h => harray h.1] at hsimple
  rw [shapeOfClean_of_generic hsimple (generic?_enclosed g.dotted g.raw), if_neg hcallback,
    if_neg (not_or.2 ⟨harray, hdictionary⟩)]

/-- A name is looked up, and if it has no meaning of its own it stands for itself. -/
theorem shapeOfClean_plain (h : Plain cs) :
    shapeOfClean cs =
      .leaf ((simpleForm? (String.ofList cs)).getD (.named (String.ofList cs))) := by
  cases hsimple : simpleForm? (String.ofList cs) with
  | none => exact shapeOfClean_of_name hsimple (generic?_of_not_mem (h.not_mem rfl))
  | some form => exact shapeOfClean_of_simple hsimple

/-! ### Terms -/

theorem shape_of_trimmed (h : Text.trimChars cs = cs) : shape cs = shapeOfClean (rename cs) := by
  rw [shape, h]

theorem TypeTerm.shape_text (t : TypeTerm) :
    shape (t.spell Atom.text) = shapeOfClean (t.spell Atom.corrected) := by
  rw [shape_of_trimmed (t.isAlternative_spell Atom.plain).trimmed, t.rename_text]

theorem TypeTerm.shape_corrected (t : TypeTerm) :
    shape (t.spell Atom.corrected) = shapeOfClean (t.spell Atom.corrected) := by
  rw [shape_of_trimmed (t.isAlternative_spell Atom.plain_corrected).trimmed, t.rename_corrected]

theorem ofName_congr {a b : List Char} (h : shape a = shape b) : ofName a = ofName b := by
  cases hb : shape b with
  | leaf form => rw [ofName_of_leaf hb, ofName_of_leaf (h.trans hb)]
  | callback parameters => rw [ofName_of_callback hb, ofName_of_callback (h.trans hb)]
  | container base alternatives => rw [ofName_of_container hb, ofName_of_container (h.trans hb)]

theorem ofName_plain (h : Plain cs) (hsettled : ¬NamesMatrix cs) :
    ofName cs = (simpleForm? (String.ofList cs)).getD (.named (String.ofList cs)) := by
  refine ofName_of_leaf ?_
  rw [shape_of_trimmed h.trimmed, rename_of_not_namesMatrix hsettled, shapeOfClean_plain h]

theorem Atom.render_ofName (a : Atom) : (ofName a.corrected).render = a.translation := by
  have hopen : '<' ∉ a.corrected := a.plain_corrected.not_mem rfl
  have hgeneric {s : String} (hs : '<' ∈ s.toList) : String.ofList a.corrected = s ↔ False :=
    iff_false_intro (by rintro rfl; exact hopen (by simpa using hs))
  rw [ofName_plain a.plain_corrected a.settled, Atom.translation]
  simp only [simpleForm?, hgeneric (s := "Callback<Object>") (by decide),
    hgeneric (s := "Callback<Dictionary>") (by decide),
    hgeneric (s := "Array<Dictionary>") (by decide), or_false, if_false, List.mem_cons,
    List.not_mem_nil]
  split_ifs <;> rfl

theorem plain_object : Plain "Object".toList := plain_of_isDottedName (by decide)

theorem plain_dictionary : Plain "Dictionary".toList := plain_of_isDottedName (by decide)

theorem not_anything_of_mark (hc : isMark c = true) (h : c ∈ cs) :
    ¬(cs = "Object".toList ∨ cs = "Dictionary".toList) := by
  rintro (rfl | rfl)
  · exact plain_object.not_mem hc h
  · exact plain_dictionary.not_mem hc h

theorem mem_enclosed (base inner : List Char) : '<' ∈ enclosed base inner :=
  List.mem_append_right _ List.mem_cons_self

/-- Parameters take anything if their text is a name for that, since nothing but a name is spelled
without brackets, bars and commas. -/
theorem takesAnything_iff (us : List TypeUnion) :
    takesAnything us = true ↔
      joinArguments (spellAll Atom.corrected us) = "Object".toList ∨
        joinArguments (spellAll Atom.corrected us) = "Dictionary".toList := by
  match us with
  | [] => exact iff_of_false (by decide) (by decide)
  | [.single (.atom a)] =>
    have hobject : a.corrected = "Object".toList ↔ a.text = "Object".toList :=
      rename_eq_iff (by decide) (by decide)
    have hdictionary : a.corrected = "Dictionary".toList ↔ a.text = "Dictionary".toList :=
      rename_eq_iff (by decide) (by decide)
    rw [spellAll, spellAll, joinArguments_singleton, TypeUnion.spell, TypeTerm.spell, hobject,
      hdictionary, takesAnything, Bool.or_eq_true, decide_eq_true_eq, decide_eq_true_eq]
  | [.single (.container _ _)] | [.single (.callback _)] | [.single (.foreign _)] =>
    refine iff_of_false Bool.false_ne_true ?_
    rw [spellAll, spellAll, joinArguments_singleton, TypeUnion.spell, TypeTerm.spell]
    exact not_anything_of_mark rfl (mem_enclosed _ _)
  | [.either t others] =>
    refine iff_of_false Bool.false_ne_true ?_
    rw [spellAll, spellAll, joinArguments_singleton, TypeUnion.spell]
    exact not_anything_of_mark (c := '|') rfl (List.mem_append_right _ List.mem_cons_self)
  | u :: v :: rest =>
    refine iff_of_false (by simp [takesAnything]) ?_
    rw [spellAll, spellAll, joinArguments_cons_cons]
    exact not_anything_of_mark (c := ',') rfl (List.mem_append_right _ List.mem_cons_self)

theorem numbered_eq_mapIdx (n : Nat) (types : List String) :
    TypeForm.numbered n types =
      types.mapIdx fun i type => "arg" ++ toString (i + n) ++ ": " ++ type := by
  induction types generalizing n with
  | nil => rfl
  | cons type rest ih =>
    rw [TypeForm.numbered, ih, List.mapIdx_cons, Nat.zero_add]
    simp only [Nat.add_assoc, Nat.add_comm 1]

theorem ofList_enclosed (base inner : List Char) :
    String.ofList (enclosed base inner) =
      String.ofList base ++ "<" ++ String.ofList inner ++ ">" := by
  apply String.toList_injective
  simp [enclosed]

theorem render_ofAlternatives (names : List (List Char)) :
    (ofAlternatives names).render = Text.join "|" (names.map fun n => (ofName n).render) := by
  rw [ofAlternatives, TypeForm.render, TypeForm.renderAll_eq_map, List.map_map]
  rfl

mutual

theorem TypeTerm.render_ofName :
    ∀ t : TypeTerm, (ofName (t.spell Atom.corrected)).render = t.translation
  | .atom a => a.render_ofName
  | .container c element => by
    have hshape := (TypeTerm.container c element).shape_corrected
    have helement := element.render_alternatives
    rw [TypeTerm.spell, shapeOfClean_container] at hshape
    rw [TypeTerm.spell, TypeTerm.translation, ← helement]
    split at hshape
    next hany =>
      -- The whole text has a meaning of its own, so the element is not read, but would be `any`.
      obtain ⟨rfl, hinner⟩ := hany
      rw [ofName_of_leaf hshape, hinner,
        cutTopLevel_of_uncut plain_dictionary.isAlternative.uncut_bar, plain_dictionary.trimmed,
        render_ofAlternatives, List.map_singleton, ofName_plain plain_dictionary (by decide)]
      rfl
    next =>
      rw [ofName_of_container hshape, TypeForm.render]
  | .callback parameters => by
    have hshape := (TypeTerm.callback parameters).shape_corrected
    rw [TypeTerm.spell, shapeOfClean_callback] at hshape
    rw [TypeTerm.spell, TypeTerm.translation]
    by_cases hany : takesAnything parameters = true
    · rw [if_pos ((takesAnything_iff parameters).1 hany)] at hshape
      rw [ofName_of_leaf hshape, if_pos hany]
      rfl
    · have hfull : spellAll Atom.corrected parameters ≠ [[]] := fun h =>
        nil_not_mem_spellAll Atom.plain_corrected parameters (h ▸ List.mem_cons_self)
      have hpieces : ∀ a ∈ spellAll Atom.corrected parameters, IsPiece a := fun a ha =>
        (isArgument_of_mem_spellAll Atom.plain_corrected parameters a ha).isPiece
      rw [if_neg (mt (takesAnything_iff parameters).2 hany), splitArguments_join hpieces hfull]
        at hshape
      rw [ofName_of_callback hshape, if_neg hany, TypeForm.render, TypeForm.renderAll_eq_map,
        List.map_map, List.map_map, numbered_eq_mapIdx, ← map_render_alternatives parameters]
      rfl
  | .foreign g => by
    have hshape := (TypeTerm.foreign g).shape_corrected
    rw [TypeTerm.spell, shapeOfClean_foreign] at hshape
    rw [TypeTerm.spell, ofName_of_leaf hshape, TypeForm.render, TypeTerm.translation,
      ofList_enclosed]

theorem TypeUnion.render_alternatives :
    ∀ u : TypeUnion,
      (ofAlternatives (cutTopLevel '|' (u.spell Atom.corrected))).render = u.translation
  | .single t => by
    have ht := t.isAlternative_spell Atom.plain_corrected
    rw [TypeUnion.spell, cutTopLevel_of_uncut ht.uncut_bar, ht.trimmed, render_ofAlternatives,
      List.map_singleton, t.render_ofName, TypeUnion.translation]
    exact String.intercalate_singleton
  | .either t others => by
    have ht := t.isAlternative_spell Atom.plain_corrected
    have hothers : ((cutTopLevel '|' (others.spell Atom.corrected)).map
        fun n => (ofName n).render) ≠ [] := by
      rw [Ne, List.map_eq_nil_iff]
      exact cutTopLevel_ne_nil _ _
    rw [TypeUnion.spell, cutTopLevel_append rfl ht.uncut_bar ht.nested.closed, ht.trimmed,
      render_ofAlternatives, List.map_cons, Text.join_cons hothers, t.render_ofName,
      ← render_ofAlternatives, others.render_alternatives, TypeUnion.translation]

theorem map_render_alternatives :
    ∀ us : List TypeUnion,
      (spellAll Atom.corrected us).map (fun u => (ofAlternatives (cutTopLevel '|' u)).render) =
        translations us
  | [] => rfl
  | u :: rest => congrArg₂ List.cons u.render_alternatives (map_render_alternatives rest)

end

/-- A term that is written as it stands in a description is read alike: its names are corrected
first. -/
theorem TypeTerm.render_print (t : TypeTerm) :
    (ofName (t.spell Atom.text)).render = t.translation := by
  rw [ofName_congr (t.shape_text.trans t.shape_corrected.symm), t.render_ofName]

end ApiTypings.TypeText
