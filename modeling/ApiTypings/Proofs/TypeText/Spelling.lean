import ApiTypings.Proofs.TypeText.Term

/-!
What spelling keeps.

A spelled term is one piece: it is trimmed, its brackets are closed, and outside of brackets it has
neither a bar nor a comma. So terms that are joined can be told apart again. Corrections go through
a spelled term to its atoms: a term as it is written and the same term with its atoms corrected have
one corrected text.
-/

namespace ApiTypings.TypeText

variable {c : Char} {cs base inner a b : List Char} {args : List (List Char)}

/-! ### Pieces -/

theorem Container.dotted (c : Container) : isDottedName c.name.toList = true := by
  cases c <;> decide

theorem Container.plain (c : Container) : Plain c.name.toList := plain_of_isDottedName c.dotted

theorem dotted_callback : isDottedName "Callback".toList = true := by decide

theorem plain_callback : Plain "Callback".toList := plain_of_isDottedName dotted_callback

theorem Foreign.plain (g : Foreign) : Plain g.base := plain_of_isDottedName g.dotted

/-- An alternative that a choice is cut into unchanged. -/
structure IsAlternative (a : List Char) : Prop extends IsArgument a where
  uncut_bar : Uncut '|' 0 a

theorem Plain.isAlternative (h : Plain cs) : IsAlternative cs where
  trimmed := h.trimmed
  nested := nested_of_flat h.flat
  uncut_comma := uncut_of_not_mem (h.not_mem rfl)
  uncut_bar := uncut_of_not_mem (h.not_mem rfl)

theorem Plain.isAlternative_enclosed (hbase : Plain base) (hinner : Nested inner) :
    IsAlternative (enclosed base inner) where
  trimmed := by
    obtain ⟨c, rest, rfl⟩ := List.exists_cons_of_ne_nil hbase.nonempty
    have hhead := (Text.trimChars_eq_self_iff.1 hbase.trimmed).1
    have hfirst : (enclosed (c :: rest) inner).head? = (c :: rest).head? := rfl
    refine Text.trimChars_eq_self_iff.2 ⟨hfirst ▸ hhead, fun d hd => ?_⟩
    rw [enclosed, ← List.cons_append, ← List.append_assoc, List.getLast?_concat,
      Option.mem_some_iff] at hd
    exact hd ▸ rfl
  nested := hinner.enclosed hbase.flat
  uncut_comma := uncut_enclosed hbase.flat (hbase.not_mem rfl) rfl hinner
  uncut_bar := uncut_enclosed hbase.flat (hbase.not_mem rfl) rfl hinner

theorem IsArgument.either (ha : IsArgument a) (hb : IsArgument b) : IsArgument (a ++ '|' :: b) where
  trimmed := Text.trimChars_append_cons rfl ha.trimmed hb.trimmed
  nested := by
    have hbar : Nested ['|'] := nested_of_flat (by simp [bracketStep])
    exact ha.nested.append (hbar.append hb.nested)
  uncut_comma := by
    refine uncut_append.2 ⟨ha.uncut_comma, ?_⟩
    rw [ha.nested.closed]
    exact ⟨fun h => absurd h (by decide), hb.uncut_comma⟩

theorem nested_joinArguments (h : ∀ a ∈ args, Nested a) : Nested (joinArguments args) := by
  have hjoint : Nested [',', ' '] := nested_of_flat (by simp [bracketStep])
  induction args with
  | nil => exact nested_nil
  | cons a rest ih =>
    rw [List.forall_mem_cons] at h
    cases rest with
    | nil =>
      rw [joinArguments_singleton]
      exact h.1
    | cons b more =>
      rw [joinArguments_cons_cons]
      exact h.1.append (hjoint.append (ih h.2))

mutual

theorem TypeTerm.isAlternative_spell {name : Atom → List Char} (hname : ∀ a, Plain (name a)) :
    ∀ t : TypeTerm, IsAlternative (t.spell name)
  | .atom a => (hname a).isAlternative
  | .container c element => c.plain.isAlternative_enclosed (element.isArgument_spell hname).nested
  | .callback parameters =>
    plain_callback.isAlternative_enclosed <| nested_joinArguments fun a ha =>
      (isArgument_of_mem_spellAll hname parameters a ha).nested
  | .foreign g => g.plain.isAlternative_enclosed g.nested

theorem TypeUnion.isArgument_spell {name : Atom → List Char} (hname : ∀ a, Plain (name a)) :
    ∀ u : TypeUnion, IsArgument (u.spell name)
  | .single t => (t.isAlternative_spell hname).toIsArgument
  | .either t others =>
    (t.isAlternative_spell hname).toIsArgument.either (others.isArgument_spell hname)

theorem isArgument_of_mem_spellAll {name : Atom → List Char} (hname : ∀ a, Plain (name a)) :
    ∀ us : List TypeUnion, ∀ a ∈ spellAll name us, IsArgument a
  | [] => fun _ ha => absurd ha List.not_mem_nil
  | u :: rest =>
    List.forall_mem_cons.2 ⟨u.isArgument_spell hname, isArgument_of_mem_spellAll hname rest⟩

end

theorem enclosed_ne_nil (base inner : List Char) : enclosed base inner ≠ [] :=
  List.append_ne_nil_of_right_ne_nil _ (List.cons_ne_nil _ _)

theorem TypeTerm.spell_ne_nil {name : Atom → List Char} (hname : ∀ a, Plain (name a)) :
    ∀ t : TypeTerm, t.spell name ≠ []
  | .atom a => (hname a).nonempty
  | .container _ _ => enclosed_ne_nil _ _
  | .callback _ => enclosed_ne_nil _ _
  | .foreign _ => enclosed_ne_nil _ _

theorem TypeUnion.spell_ne_nil {name : Atom → List Char} (hname : ∀ a, Plain (name a)) :
    ∀ u : TypeUnion, u.spell name ≠ []
  | .single t => t.spell_ne_nil hname
  | .either _ _ => List.append_ne_nil_of_right_ne_nil _ (List.cons_ne_nil _ _)

theorem spellAll_eq_map (name : Atom → List Char) (us : List TypeUnion) :
    spellAll name us = us.map (TypeUnion.spell name) := by
  induction us with
  | nil => rfl
  | cons u rest ih => rw [spellAll, ih, List.map_cons]

theorem nil_not_mem_spellAll {name : Atom → List Char} (hname : ∀ a, Plain (name a))
    (us : List TypeUnion) : [] ∉ spellAll name us := by
  rw [spellAll_eq_map, List.mem_map]
  rintro ⟨u, -, hu⟩
  exact u.spell_ne_nil hname hu

/-! ### Corrections -/

theorem rename_enclosed (base inner : List Char) :
    rename (enclosed base inner) = enclosed (rename base) (rename inner) := by
  rw [enclosed, rename_append_cons (not_mem_of_isMark rfl),
    rename_append_cons (not_mem_of_isMark rfl), rename_nil, enclosed]

theorem rename_joinArguments (args : List (List Char)) :
    rename (joinArguments args) = joinArguments (args.map rename) := by
  have hblank : ∀ r ∈ renames, ' ' ∉ r.1.toList := by decide
  induction args with
  | nil => exact rename_nil
  | cons a rest ih =>
    cases rest with
    | nil => simp
    | cons b more =>
      have hcut : rename ([] ++ ' ' :: joinArguments (b :: more)) = _ :=
        rename_append_cons hblank _ _
      rw [rename_nil, List.nil_append, List.nil_append, ih] at hcut
      rw [joinArguments_cons_cons, rename_append_cons (not_mem_of_isMark rfl), hcut]
      exact (joinArguments_cons_cons _ _ _).symm

mutual

theorem TypeTerm.rename_spell (name : Atom → List Char) :
    ∀ t : TypeTerm, rename (t.spell name) = t.spell (rename ∘ name)
  | .atom a => by rw [TypeTerm.spell, TypeTerm.spell, Function.comp_apply]
  | .container c element => by
    have hbase : ¬NamesMatrix c.name.toList := by cases c <;> decide
    rw [TypeTerm.spell, rename_enclosed, rename_of_not_namesMatrix hbase, element.rename_spell name,
      TypeTerm.spell]
  | .callback parameters => by
    have hbase : ¬NamesMatrix "Callback".toList := by decide
    rw [TypeTerm.spell, rename_enclosed, rename_of_not_namesMatrix hbase, rename_joinArguments,
      map_rename_spellAll name, TypeTerm.spell]
  | .foreign g => by
    rw [TypeTerm.spell, rename_enclosed, rename_of_not_namesMatrix g.base_settled,
      rename_of_not_namesMatrix g.raw_settled, TypeTerm.spell]

theorem TypeUnion.rename_spell (name : Atom → List Char) :
    ∀ u : TypeUnion, rename (u.spell name) = u.spell (rename ∘ name)
  | .single t => t.rename_spell name
  | .either t others => by
    rw [TypeUnion.spell, rename_append_cons (not_mem_of_isMark rfl), t.rename_spell name,
      others.rename_spell name, TypeUnion.spell]

theorem map_rename_spellAll (name : Atom → List Char) :
    ∀ us : List TypeUnion, (spellAll name us).map rename = spellAll (rename ∘ name) us
  | [] => rfl
  | u :: rest => congrArg₂ List.cons (u.rename_spell name) (map_rename_spellAll name rest)

end

theorem Atom.plain_corrected (a : Atom) : Plain a.corrected := a.plain.rename

theorem Atom.rename_corrected (a : Atom) : rename a.corrected = a.corrected :=
  rename_of_not_namesMatrix a.settled

theorem TypeTerm.rename_text (t : TypeTerm) :
    rename (t.spell Atom.text) = t.spell Atom.corrected := by
  have hnames : rename ∘ Atom.text = Atom.corrected :=
    funext fun a => by rw [Function.comp_apply, Atom.corrected]
  rw [t.rename_spell, hnames]

/-- What has its atoms corrected stays as it is. -/
theorem TypeTerm.rename_corrected (t : TypeTerm) :
    rename (t.spell Atom.corrected) = t.spell Atom.corrected := by
  have hnames : rename ∘ Atom.corrected = Atom.corrected :=
    funext fun a => by rw [Function.comp_apply, a.rename_corrected]
  rw [t.rename_spell, hnames]

end ApiTypings.TypeText
