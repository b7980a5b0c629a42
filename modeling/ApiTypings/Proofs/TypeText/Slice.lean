import ApiTypings.Proofs.TypeText.Depth

/-!
Cutting by position.

A text is cut where a separator stands at depth zero, and its pieces are the slices from one cut to
the next. So it is enough to remember where the current piece began, and keeping its characters
instead comes to the same. Arguments and alternatives are cut alike in this: at commas a text falls
into the same pieces either way, however its brackets are nested and whether or not they match. Only
a blank text tells the two apart, which is one empty alternative but no argument.
-/

namespace ApiTypings.TypeText

variable {sep : Char} {text : List Char}

/-! ### Slices -/

/-- That a separator stands at a position and as many brackets are opened as closed before it. -/
def IsCut (sep : Char) (text : List Char) (i : Nat) : Prop :=
  text[i]? = some sep ∧ depth (text.take i) = 0

instance (sep : Char) (text : List Char) : DecidablePred (IsCut sep text) := fun i =>
  inferInstanceAs (Decidable (text[i]? = some sep ∧ depth (text.take i) = 0))

/-- The positions at which a text is cut, in order. -/
def cuts (sep : Char) (text : List Char) : List Nat :=
  (List.range text.length).filter (IsCut sep text)

/-- The slices of a text between positions, from a first position on. The characters at the
positions themselves are in none of them. -/
def slices (text : List Char) (start : Nat) : List Nat → List (List Char)
  | [] => [text.drop start]
  | i :: more => (text.take i).drop start :: slices text (i + 1) more

theorem length_slices (text : List Char) (start : Nat) (positions : List Nat) :
    (slices text start positions).length = positions.length + 1 := by
  induction positions generalizing start with
  | nil => rfl
  | cons i more ih => rw [slices, List.length_cons, ih, List.length_cons]

/-- The cuts of a text of two parts that stand in the second one. -/
def cutsBehind (sep : Char) (front rest : List Char) : List Nat :=
  (List.range' front.length rest.length).filter (IsCut sep (front ++ rest))

theorem cutsBehind_nil (sep : Char) (text : List Char) :
    cutsBehind sep [] text = cuts sep text := by
  rw [cuts, List.range_eq_range']
  rfl

theorem cutsBehind_cons (sep c : Char) (front rest : List Char) :
    cutsBehind sep front (c :: rest) =
      if c = sep ∧ depth front = 0 then front.length :: cutsBehind sep (front ++ [c]) rest
      else cutsBehind sep (front ++ [c]) rest := by
  have hcut : IsCut sep (front ++ c :: rest) front.length ↔ c = sep ∧ depth front = 0 := by
    simp [IsCut]
  have hwhole : front ++ [c] ++ rest = front ++ c :: rest := List.append_cons .. |>.symm
  rw [cutsBehind, cutsBehind, hwhole, List.length_append, List.length_singleton, List.length_cons,
    List.range'_succ, List.filter_cons]
  simp only [decide_eq_true_eq, hcut]

/-- Cutting from within a text. The characters kept of the current piece are the slice that starts
behind the last cut. -/
theorem cutFrom_eq_slices (hflat : bracketStep sep = 0) (front rest : List Char) {start : Nat}
    (hstart : start ≤ front.length) :
    cutFrom sep (depth front) (front.drop start).reverse rest =
      (slices (front ++ rest) start (cutsBehind sep front rest)).map Text.trimChars := by
  -- What was read moves to `front`; `start` moves only at a cut, and then past all of it.
  induction rest generalizing front start with
  | nil => simp [cutFrom, slices, cutsBehind]
  | cons c more ih =>
      have hwhole : front ++ [c] ++ more = front ++ c :: more := List.append_cons .. |>.symm
      have hlength : (front ++ [c]).length = front.length + 1 := List.length_append
      have hdepth : depth (front ++ [c]) = depth front + bracketStep c := by simp
      have hslice : c :: (front.drop start).reverse = ((front ++ [c]).drop start).reverse := by
        rw [List.drop_append_of_le_length hstart, List.reverse_append]
        rfl
      rw [cutFrom, cutsBehind_cons]
      split
      next hbracket =>
        -- A bracket is no separator, so the position is no cut either.
        have hother : c ≠ sep := fun hc => hbracket (hc ▸ hflat)
        rw [if_neg fun h => hother h.1, hslice, ← hdepth, ih _ (by omega), hwhole]
      next hlevel =>
        rw [not_not.1 hlevel, Int.add_zero] at hdepth
        split
        · have hnext := ih (front ++ [c]) (Nat.le_refl _)
          rw [List.drop_length, hdepth, hlength, hwhole] at hnext
          rw [slices, List.map_cons, List.take_left, List.reverse_reverse, ← hnext]
          rfl
        · rw [hslice, ← hdepth, ih _ (by omega), hwhole]

/-- The pieces of a text are its slices between the cuts, trimmed. -/
theorem cutTopLevel_eq_slices (hflat : bracketStep sep = 0) (text : List Char) :
    cutTopLevel sep text = (slices text 0 (cuts sep text)).map Text.trimChars := by
  rw [← cutsBehind_nil]
  exact cutFrom_eq_slices hflat [] text (Nat.le_refl 0)

/-- A comma is no cut behind a bracket that closes nothing, nor behind one that stays open. -/
example : cuts ',' "A>,B<,C(,D".toList = [5] ∧
    cutTopLevel ',' "A>,B<,C(,D".toList = ["A>,B<".toList, "C(,D".toList] := by decide

/-- Only a blank text is cut into a single empty piece. -/
theorem cutTopLevel_eq_empty_iff (hflat : bracketStep sep = 0) (hsep : Text.isBlank sep = false) :
    cutTopLevel sep text = [[]] ↔ ∀ c ∈ text, Text.isBlank c = true := by
  constructor
  · intro h
    rw [cutTopLevel_eq_slices hflat] at h
    have huncut : cuts sep text = [] := by
      have hlength := congrArg List.length h
      rw [List.length_map, length_slices] at hlength
      exact List.length_eq_zero_iff.1 (Nat.succ.inj hlength)
    rw [huncut] at h
    exact Text.trimChars_eq_nil_iff.1 (List.singleton_inj.1 h)
  · intro h
    have huncut : sep ∉ text := fun hmem => by simp [h sep hmem] at hsep
    rw [cutTopLevel_of_uncut (uncut_of_not_mem huncut), Text.trimChars_eq_nil_iff.2 h]

/-! ### Arguments -/

namespace ArgumentScan

/-- The pieces that a scan has finished, and those that come of the rest of the text when it is cut
as alternatives are, from the depth and the current piece of the scan on. -/
def resume (s : ArgumentScan) (rest : List Char) : List (List Char) :=
  s.done.reverse ++ cutFrom ',' s.depth s.current rest

/-- Both ways of cutting keep the same depth and the same current piece. -/
theorem resume_step (s : ArgumentScan) (c : Char) (rest : List Char) :
    (s.step c).resume rest = s.resume (c :: rest) := by
  obtain ⟨depth, current, done⟩ := s
  by_cases hcut : c = ',' ∧ depth = 0
  · obtain ⟨rfl, rfl⟩ := hcut
    rw [step_comma, resume, List.reverse_cons, List.append_assoc, List.singleton_append]
    rfl
  · rw [step_of_not_cut (not_and.1 hcut), resume, resume, cutFrom, if_neg hcut]
    split
    · rfl
    next hflat => rw [not_not.1 hflat, Int.add_zero]

theorem resume_foldl (s : ArgumentScan) (cs : List Char) :
    (cs.foldl step s).resume [] = s.resume cs := by
  induction cs generalizing s with
  | nil => rfl
  | cons c rest ih => rw [List.foldl_cons, ih, resume_step]

/-- A scan drops its last piece only if this is empty and the first one. -/
theorem finish_eq (s : ArgumentScan) :
    s.finish = if s.resume [] = [[]] then [] else s.resume [] := by
  have hresume : s.resume [] = (Text.trimChars s.current.reverse :: s.done).reverse := by
    rw [resume, cutFrom, List.reverse_cons]
  have hdropped : s.resume [] = [[]] ↔
      ((Text.trimChars s.current.reverse).isEmpty && s.done.isEmpty) = true := by
    rw [hresume, List.reverse_eq_iff, List.reverse_singleton, List.cons.injEq, Bool.and_eq_true,
      List.isEmpty_iff, List.isEmpty_iff]
  rw [finish]
  simp only [hdropped]
  rw [hresume]

end ArgumentScan

/-- The arguments are the pieces between commas, but a text with a single empty piece has none. -/
theorem splitArguments_eq (text : List Char) :
    splitArguments text = if cutTopLevel ',' text = [[]] then [] else cutTopLevel ',' text := by
  have hpieces : (text.foldl ArgumentScan.step .start).resume [] = cutTopLevel ',' text :=
    ArgumentScan.resume_foldl .start text
  rw [splitArguments, ArgumentScan.finish_eq, hpieces]

/-- Cut at commas, a text falls into its slices between the commas at depth zero, and these are its
arguments unless it is blank. -/
theorem cutTopLevel_eq_splitArguments_iff (text : List Char) :
    cutTopLevel ',' text = (slices text 0 (cuts ',' text)).map Text.trimChars ∧
      (cutTopLevel ',' text = splitArguments text ↔ ∃ c ∈ text, Text.isBlank c = false) := by
  refine ⟨cutTopLevel_eq_slices rfl text, ?_⟩
  have hblank : cutTopLevel ',' text = [[]] ↔ ∀ c ∈ text, Text.isBlank c = true :=
    cutTopLevel_eq_empty_iff rfl rfl
  calc cutTopLevel ',' text = splitArguments text ↔ cutTopLevel ',' text ≠ [[]] := by
        rw [splitArguments_eq]
        split
        next hempty => simp [hempty]
        next hfull => simp [hfull]
    _ ↔ ∃ c ∈ text, Text.isBlank c = false := by
        rw [ne_eq, hblank]
        simp

end ApiTypings.TypeText
