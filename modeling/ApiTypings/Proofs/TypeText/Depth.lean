import ApiTypings.Proofs.Text.Trimming
import ApiTypings.TypeText.Cut

/-!
Cutting texts that keep their brackets together.

Cutting follows one number, the depth: how many more brackets were opened than closed so far. A
text in which a separator never stands at depth zero is gone through without a cut, and if it
closes as many brackets as it opens, what follows it is cut as if it stood alone. So what was
joined at depth zero is cut at the joints and nowhere else.
-/

namespace ApiTypings.TypeText

variable {sep : Char} {d : Int} {a b cs : List Char}

/-- How many more brackets a text opens than it closes. -/
def depth : List Char → Int
  | [] => 0
  | c :: rest => bracketStep c + depth rest

@[simp] theorem depth_nil : depth [] = 0 := rfl

@[simp] theorem depth_cons (c : Char) (cs : List Char) :
    depth (c :: cs) = bracketStep c + depth cs := rfl

@[simp] theorem depth_append (a b : List Char) : depth (a ++ b) = depth a + depth b := by
  induction a with
  | nil => simp
  | cons c rest ih => rw [List.cons_append, depth_cons, depth_cons, ih, Int.add_assoc]

theorem depth_of_flat (h : ∀ c ∈ cs, bracketStep c = 0) : depth cs = 0 := by
  induction cs with
  | nil => rfl
  | cons c rest ih =>
      rw [List.forall_mem_cons] at h
      rw [depth_cons, h.1, ih h.2, Int.add_zero]

/-! ### Texts that are not cut -/

/-- That in a text which starts at a depth a separator never stands at depth zero. -/
def Uncut (sep : Char) : Int → List Char → Prop
  | _, [] => True
  | d, c :: rest => (c = sep → d ≠ 0) ∧ Uncut sep (d + bracketStep c) rest

@[simp] theorem uncut_nil : Uncut sep d [] := trivial

@[simp] theorem uncut_cons {c : Char} :
    Uncut sep d (c :: cs) ↔ (c = sep → d ≠ 0) ∧ Uncut sep (d + bracketStep c) cs := Iff.rfl

instance decidableUncut (sep : Char) : ∀ (d : Int) (cs : List Char), Decidable (Uncut sep d cs)
  | _, [] => inferInstanceAs (Decidable True)
  | d, c :: rest =>
    have := decidableUncut sep (d + bracketStep c) rest
    inferInstanceAs (Decidable ((c = sep → d ≠ 0) ∧ Uncut sep (d + bracketStep c) rest))

theorem uncut_append : Uncut sep d (a ++ b) ↔ Uncut sep d a ∧ Uncut sep (d + depth a) b := by
  induction a generalizing d with
  | nil => simp
  | cons c rest ih =>
      rw [List.cons_append, uncut_cons, uncut_cons, ih, depth_cons, Int.add_assoc, and_assoc]

theorem uncut_of_not_mem (h : sep ∉ cs) : Uncut sep d cs := by
  induction cs generalizing d with
  | nil => trivial
  | cons c rest ih =>
      rw [List.mem_cons, not_or] at h
      exact ⟨fun hc => absurd hc.symm h.1, ih h.2⟩

/-- That a text which starts at a depth never closes a bracket which is not open. -/
def NeverNegative : Int → List Char → Prop
  | d, [] => 0 ≤ d
  | d, c :: rest => 0 ≤ d ∧ NeverNegative (d + bracketStep c) rest

theorem neverNegative_append (h : NeverNegative d a) :
    NeverNegative d (a ++ b) ↔ NeverNegative (d + depth a) b := by
  induction a generalizing d with
  | nil => simp
  | cons c rest ih =>
      rw [List.cons_append, NeverNegative, ih h.2, depth_cons, ← Int.add_assoc]
      exact and_iff_right h.1

theorem NeverNegative.mono {e : Int} (h : NeverNegative d cs) (hle : d ≤ e) :
    NeverNegative e cs := by
  induction cs generalizing d e with
  | nil => exact Int.le_trans h hle
  | cons c rest ih => exact ⟨Int.le_trans h.1 hle, ih h.2 (Int.add_le_add_right hle _)⟩

/-- Within a further bracket nothing is cut. -/
theorem NeverNegative.uncut (h : NeverNegative d cs) : Uncut sep (d + 1) cs := by
  induction cs generalizing d with
  | nil => trivial
  | cons c rest ih =>
      refine ⟨fun _ => by have := h.1; omega, ?_⟩
      rw [Int.add_right_comm]
      exact ih h.2

/-- A text whose brackets are closed one after another and in the end all of them, without regard to
which bracket closes which. -/
structure Nested (cs : List Char) : Prop where
  neverNegative : NeverNegative 0 cs
  closed : depth cs = 0

theorem nested_nil : Nested [] := ⟨Int.le_refl 0, rfl⟩

theorem nested_of_flat (h : ∀ c ∈ cs, bracketStep c = 0) : Nested cs := by
  refine ⟨?_, depth_of_flat h⟩
  induction cs with
  | nil => exact Int.le_refl 0
  | cons c rest ih =>
      rw [List.forall_mem_cons] at h
      refine ⟨Int.le_refl 0, ?_⟩
      rw [h.1]
      exact ih h.2

theorem Nested.append (ha : Nested a) (hb : Nested b) : Nested (a ++ b) := by
  refine ⟨(neverNegative_append ha.neverNegative).2 ?_, ?_⟩
  · rw [ha.closed]
    exact hb.neverNegative
  · rw [depth_append, ha.closed, hb.closed, Int.add_zero]

/-- A base and an argument text in angle brackets. -/
def enclosed (base inner : List Char) : List Char := base ++ '<' :: (inner ++ ['>'])

theorem Nested.enclosed {base inner : List Char} (hbase : ∀ c ∈ base, bracketStep c = 0)
    (hinner : Nested inner) : Nested (enclosed base inner) := by
  refine (nested_of_flat hbase).append ⟨⟨Int.le_refl 0, ?_⟩, ?_⟩
  · have hopen : NeverNegative 1 inner := hinner.neverNegative.mono (by decide)
    refine (neverNegative_append hopen).2 ?_
    rw [hinner.closed]
    exact ⟨by decide, Int.le_refl 0⟩
  · rw [depth_cons, depth_append, hinner.closed]
    decide

theorem uncut_enclosed {base inner : List Char} (hbase : ∀ c ∈ base, bracketStep c = 0)
    (hsep : sep ∉ base) (hflat : bracketStep sep = 0) (hinner : Nested inner) :
    Uncut sep 0 (enclosed base inner) := by
  have hopen : '<' ≠ sep := by rintro rfl; revert hflat; decide
  have hclose : '>' ≠ sep := by rintro rfl; revert hflat; decide
  rw [TypeText.enclosed, uncut_append, depth_of_flat hbase, uncut_cons, uncut_append]
  refine ⟨uncut_of_not_mem hsep, fun h => absurd h hopen, ?_, ?_⟩
  · exact hinner.neverNegative.uncut
  · exact ⟨fun h => absurd h hclose, trivial⟩

/-! ### Alternatives -/

theorem cutFrom_append (h : Uncut sep d a) (current rest : List Char) :
    cutFrom sep d current (a ++ rest) =
      cutFrom sep (d + depth a) (a.reverse ++ current) rest := by
  induction a generalizing d current with
  | nil => simp
  | cons c more ih =>
      have hmore := ih h.2 (c :: current)
      rw [List.cons_append, cutFrom, depth_cons, ← Int.add_assoc, List.reverse_cons,
        List.append_assoc, List.singleton_append, ← hmore]
      split
      · rfl
      next hflat =>
        rw [if_neg fun hcut => h.1 hcut.1 hcut.2, not_not.1 hflat, Int.add_zero]

theorem cutTopLevel_ne_nil (sep : Char) (cs : List Char) : cutTopLevel sep cs ≠ [] := by
  have hfrom (d : Int) (current : List Char) : cutFrom sep d current cs ≠ [] := by
    induction cs generalizing d current with
    | nil => exact List.cons_ne_nil _ _
    | cons c rest ih =>
      rw [cutFrom]
      split
      · exact ih _ _
      · split
        · exact List.cons_ne_nil _ _
        · exact ih _ _
  exact hfrom 0 []

/-- What is uncut is a single piece. -/
theorem cutTopLevel_of_uncut (h : Uncut sep 0 a) : cutTopLevel sep a = [Text.trimChars a] := by
  have hcut := cutFrom_append h [] []
  rw [List.append_nil, List.append_nil] at hcut
  rw [cutTopLevel, hcut, cutFrom, List.reverse_reverse]

/-- A separator behind what is uncut and closes its brackets is a cut. -/
theorem cutTopLevel_append (hflat : bracketStep sep = 0) (h : Uncut sep 0 a) (hclosed : depth a = 0)
    (rest : List Char) :
    cutTopLevel sep (a ++ sep :: rest) = Text.trimChars a :: cutTopLevel sep rest := by
  rw [cutTopLevel, cutFrom_append h, hclosed, cutFrom, if_neg (not_not.2 hflat),
    if_pos ⟨rfl, rfl⟩, List.append_nil, List.reverse_reverse, Int.add_zero, cutTopLevel]

/-! ### Arguments -/

theorem ArgumentScan.step_comma (current : List Char) (done : List (List Char)) :
    step ⟨0, current, done⟩ ',' = ⟨0, [], Text.trimChars current.reverse :: done⟩ := rfl

/-- A comma adds nothing to the depth, so it is the depth before it that decides. -/
theorem ArgumentScan.step_of_not_cut {s : ArgumentScan} {c : Char}
    (h : c = ',' → s.depth ≠ 0) :
    s.step c = ⟨s.depth + bracketStep c, c :: s.current, s.done⟩ := by
  rw [step]
  refine if_neg fun hcut => h hcut.1 ?_
  obtain ⟨rfl, hzero⟩ := hcut
  simpa [bracketStep] using hzero

theorem foldl_step (h : Uncut ',' d a) (current : List Char) (done : List (List Char)) :
    a.foldl ArgumentScan.step ⟨d, current, done⟩ = ⟨d + depth a, a.reverse ++ current, done⟩ := by
  induction a generalizing d current with
  | nil => simp
  | cons c rest ih =>
      rw [List.foldl_cons, ArgumentScan.step_of_not_cut h.1, ih h.2, depth_cons, List.reverse_cons,
        List.append_assoc, List.singleton_append, Int.add_assoc]

/-- How arguments are joined. -/
def joinArguments (args : List (List Char)) : List Char := [',', ' '].intercalate args

@[simp] theorem joinArguments_singleton (a : List Char) : joinArguments [a] = a :=
  List.intercalate_singleton

@[simp] theorem joinArguments_cons_cons (a b : List Char) (more : List (List Char)) :
    joinArguments (a :: b :: more) = a ++ ',' :: ' ' :: joinArguments (b :: more) := by
  rw [joinArguments, List.intercalate_cons_cons, List.append_assoc]
  rfl

/-- A piece that a list of arguments is cut into unchanged: it is trimmed, closes as many brackets
as it opens, and has no comma at depth zero. -/
structure IsPiece (a : List Char) : Prop where
  trimmed : Text.trimChars a = a
  closed : depth a = 0
  uncut_comma : Uncut ',' 0 a

instance (a : List Char) : Decidable (IsPiece a) :=
  decidable_of_iff (Text.trimChars a = a ∧ depth a = 0 ∧ Uncut ',' 0 a)
    ⟨fun ⟨htrimmed, hclosed, huncut⟩ => ⟨htrimmed, hclosed, huncut⟩,
      fun h => ⟨h.trimmed, h.closed, h.uncut_comma⟩⟩

/-- An argument that a list is cut into unchanged. -/
structure IsArgument (a : List Char) : Prop where
  trimmed : Text.trimChars a = a
  nested : Nested a
  uncut_comma : Uncut ',' 0 a

theorem IsArgument.isPiece (h : IsArgument a) : IsPiece a :=
  ⟨h.trimmed, h.nested.closed, h.uncut_comma⟩

/-- The scan over joined pieces, wherever it starts between two of them. The blank behind the
comma belongs to the next piece. -/
theorem finish_foldl_join {args : List (List Char)} (hne : args ≠ [])
    (hargs : ∀ a ∈ args, IsPiece a) {pad : List Char} (hpad : ∀ c ∈ pad, Text.isBlank c = true)
    {done : List (List Char)} (hdone : args = [[]] → done ≠ []) :
    ((joinArguments args).foldl ArgumentScan.step ⟨0, pad, done⟩).finish =
      done.reverse ++ args := by
  induction args generalizing pad done with
  | nil => exact absurd rfl hne
  | cons a rest ih =>
      obtain ⟨ha, hrest⟩ := List.forall_mem_cons.1 hargs
      have hpiece : Text.trimChars (a.reverse ++ pad).reverse = a := by
        rw [List.reverse_append, List.reverse_reverse,
          Text.trimChars_append_of_blank fun c hc => hpad c (List.mem_reverse.1 hc), ha.trimmed]
      cases rest with
      | nil =>
        rw [joinArguments_singleton, foldl_step ha.uncut_comma, ha.closed,
          ArgumentScan.finish, hpiece]
        -- The last piece is dropped only if it is empty and the first one.
        have hkept : (a.isEmpty && done.isEmpty) = false := by
          rw [Bool.and_eq_false_iff, List.isEmpty_eq_false_iff, List.isEmpty_eq_false_iff]
          by_cases hempty : a = []
          · exact .inr (hdone (by rw [hempty]))
          · exact .inl hempty
        rw [hkept, if_neg Bool.false_ne_true, List.reverse_cons]
      | cons b more =>
        rw [joinArguments_cons_cons, List.foldl_append, foldl_step ha.uncut_comma,
          ha.closed, Int.add_zero, List.foldl_cons, ArgumentScan.step_comma, hpiece,
          List.foldl_cons]
        have hblank : ∀ c ∈ [' '], Text.isBlank c = true := List.forall_mem_singleton.2 rfl
        have hnext := ih (List.cons_ne_nil _ _) hrest hblank fun _ => List.cons_ne_nil a done
        rw [List.reverse_cons, List.append_assoc, List.singleton_append] at hnext
        exact hnext

/-- Joined pieces are cut into what they were joined from. Only a single empty piece gets lost. -/
theorem splitArguments_join {args : List (List Char)} (hargs : ∀ a ∈ args, IsPiece a)
    (hfull : args ≠ [[]]) : splitArguments (joinArguments args) = args := by
  by_cases hne : args = []
  · subst hne
    rfl
  · exact finish_foldl_join hne hargs (by simp) fun h => absurd h hfull

end ApiTypings.TypeText
