import ApiTypings.Proofs.Text.Pieces
import ApiTypings.Proofs.Text.Replacement
import ApiTypings.TypeText.Closure

/-!
Qualifying the dictionaries of dotted types.

A line is changed only if it asks for the dictionary of a dotted type: if it opens a dictionary and
has a dot before some bracket that closes behind. It is then taken to ask for one dictionary, from
the first opening to the last bracket, whose last segment begins at the last dot in between. So what
becomes of a line follows from where these three stand.
-/

namespace ApiTypings.TypeText.Closure

variable {c mark : Char} {part line front back cs : List Char} {r : List Char × List Char}

/-! ### The first occurrence of a text -/

theorem splitFirst?_append {part : List Char} (hpart : part ≠ []) (rest : List Char) :
    splitFirst? part (part ++ rest) = some ([], rest) := by
  obtain ⟨c, cs, rfl⟩ := List.exists_cons_of_ne_nil hpart
  have hprefix : (c :: cs).isPrefixOf (c :: (cs ++ rest)) = true :=
    List.isPrefixOf_iff_prefix.2 (List.prefix_append (c :: cs) rest)
  rw [List.cons_append, splitFirst?, if_pos hprefix]
  simp

theorem eq_of_splitFirst? (h : splitFirst? part cs = some r) : cs = r.1 ++ (part ++ r.2) := by
  induction cs generalizing r with
  | nil =>
    rw [splitFirst?] at h
    split at h
    next hempty =>
      obtain rfl := Option.some.inj h
      rw [List.isEmpty_iff.1 hempty]
      rfl
    next => cases h
  | cons c rest ih =>
    rw [splitFirst?] at h
    split at h
    next hprefix =>
      obtain rfl := Option.some.inj h
      exact (List.prefix_iff_eq_append.1 (List.isPrefixOf_iff_prefix.1 hprefix)).symm
    next =>
      obtain ⟨found, hfound, rfl⟩ := Option.map_eq_some_iff.1 h
      exact congrArg (c :: ·) (ih hfound)

/-- A text that occurs is found, if not there then further in front. -/
theorem exists_splitFirst? (hpart : part ≠ []) (front back : List Char) :
    ∃ before middle,
      splitFirst? part (front ++ (part ++ back)) = some (before, middle ++ back) := by
  induction front with
  | nil => exact ⟨[], [], splitFirst?_append hpart back⟩
  | cons c rest ih =>
    obtain ⟨before, middle, hfound⟩ := ih
    rw [List.cons_append, splitFirst?, hfound]
    split
    · have hlength : part.length ≤ (c :: (rest ++ part)).length := by simp; omega
      refine ⟨[], (c :: (rest ++ part)).drop part.length, ?_⟩
      rw [← List.append_assoc, ← List.cons_append, List.drop_append_of_le_length hlength]
    · exact ⟨c :: before, middle, rfl⟩

theorem splitFirst?_nil (hpart : part ≠ []) : splitFirst? part [] = none := by
  rw [splitFirst?, if_neg fun h => hpart (List.isEmpty_iff.1 h)]

theorem splitFirst?_append_of_some (hpart : part ≠ []) (hc : c ∉ part)
    (h : splitFirst? part front = some r) (back : List Char) :
    splitFirst? part (front ++ c :: back) = some (r.1, r.2 ++ c :: back) := by
  induction front generalizing r with
  | nil =>
    rw [splitFirst?_nil hpart] at h
    cases h
  | cons d rest ih =>
    rw [splitFirst?] at h
    rw [List.cons_append, splitFirst?, ← List.cons_append, Text.isPrefixOf_append_cons hc]
    split at h
    next hprefix =>
      obtain rfl := Option.some.inj h
      have hlength := (List.isPrefixOf_iff_prefix.1 hprefix).length_le
      rw [if_pos hprefix, List.drop_append_of_le_length hlength]
    next hprefix =>
      obtain ⟨found, hfound, rfl⟩ := Option.map_eq_some_iff.1 h
      rw [if_neg hprefix, ih hfound]
      rfl

theorem splitFirst?_append_of_none (hpart : part ≠ []) (hc : c ∉ part)
    (h : splitFirst? part front = none) (back : List Char) :
    splitFirst? part (front ++ c :: back) =
      (splitFirst? part back).map fun r => (front ++ c :: r.1, r.2) := by
  induction front with
  | nil =>
    have hprefix := Text.isPrefixOf_cons_of_not_mem hpart hc back
    rw [List.nil_append, splitFirst?, hprefix, if_neg Bool.false_ne_true]
    rfl
  | cons d rest ih =>
    rw [splitFirst?] at h
    split at h
    next => cases h
    next hprefix =>
      rw [List.cons_append, splitFirst?, ← List.cons_append, Text.isPrefixOf_append_cons hc,
        if_neg hprefix, ih (Option.map_eq_none_iff.1 h), Option.map_map]
      rfl

/-! ### The last occurrence of a character -/

theorem splitLast?_of_not_mem {mark : Char} {cs : List Char} (h : mark ∉ cs) :
    splitLast? mark cs = none := by
  induction cs with
  | nil => rfl
  | cons c rest ih =>
    rw [List.mem_cons, not_or] at h
    rw [splitLast?, ih h.2, if_neg (Ne.symm h.1)]

theorem splitLast?_append {mark : Char} {back : List Char} (h : mark ∉ back) (front : List Char) :
    splitLast? mark (front ++ mark :: back) = some (front, back) := by
  induction front with
  | nil => rw [List.nil_append, splitLast?, splitLast?_of_not_mem h, if_pos rfl]
  | cons c rest ih => rw [List.cons_append, splitLast?, ih]

/-! ### Lines -/

/-- That a text has a dot before a bracket which closes. -/
def DotsBracket (cs : List Char) : Prop := ∃ inner after, cs = inner ++ '>' :: after ∧ '.' ∈ inner

theorem dotsBracket_iff (hafter : '>' ∉ back) :
    DotsBracket (front ++ '>' :: back) ↔ '.' ∈ front := by
  refine ⟨?_, fun h => ⟨front, back, rfl, h⟩⟩
  rintro ⟨inner, after, hsplit, hdot⟩
  rcases List.append_eq_append_iff.1 hsplit.symm with ⟨more, rfl, -⟩ | ⟨more, rfl, hback⟩
  · exact List.mem_append_left more hdot
  · cases more with
    | nil => simpa using hdot
    | cons c rest =>
      rw [List.cons_append] at hback
      obtain ⟨-, rfl⟩ := List.cons.inj hback
      exact absurd (List.mem_append_right rest List.mem_cons_self) hafter

theorem opening_ne_nil : "Dictionary<".toList ≠ [] := by simp

/-- That a line asks for the dictionary of a dotted type. -/
def Asks (line : List Char) : Prop :=
  ∃ front rest, line = front ++ ("Dictionary<".toList ++ rest) ∧ DotsBracket rest

/-- Where a dictionary is asked for, the mark is put before the last segment, and the outermost
brackets go. -/
theorem qualifyLine_of_first {before container name after : List Char}
    (hfirst : splitFirst? "Dictionary<".toList line =
      some (before, container ++ '.' :: (name ++ '>' :: after)))
    (hname : '.' ∉ name) (hafter : '>' ∉ after) :
    qualifyLine line = before ++ container ++ dictionaryMark ++ name ++ after := by
  have hsplit : container ++ '.' :: (name ++ '>' :: after) =
      (container ++ '.' :: name) ++ '>' :: after := by simp
  have hclosing := splitLast?_append hafter (container ++ '.' :: name)
  have hdot := splitLast?_append hname container
  rw [hsplit] at hfirst
  simp only [qualifyLine, hfirst, hclosing, hdot]

theorem qualifyLine_of_not_asks (h : ¬Asks line) : qualifyLine line = line := by
  rw [qualifyLine]
  split
  next => rfl
  next before rest hfirst =>
    have hrest : ¬DotsBracket rest := fun hdots => h ⟨before, rest, eq_of_splitFirst? hfirst, hdots⟩
    by_cases hclose : '>' ∈ rest
    · obtain ⟨inner, after, rfl, hafter⟩ := Text.exists_last hclose
      rw [dotsBracket_iff hafter] at hrest
      simp only [splitLast?_append hafter, splitLast?_of_not_mem hrest]
    · simp only [splitLast?_of_not_mem hclose]

/-- A line that asks for a dictionary has a first opening, a last bracket, and a last dot before
it. -/
theorem Asks.exists_first (h : Asks line) :
    ∃ before container name after,
      splitFirst? "Dictionary<".toList line =
          some (before, container ++ '.' :: (name ++ '>' :: after)) ∧
        '.' ∉ name ∧ '>' ∉ after := by
  obtain ⟨front, rest, rfl, opened, behind, rfl, hdot⟩ := h
  have hclose : '>' ∈ '>' :: behind := List.mem_cons_self
  obtain ⟨before, middle, hfirst⟩ :=
    exists_splitFirst? opening_ne_nil front (opened ++ '>' :: behind)
  obtain ⟨more, after, hlast, hafter⟩ := Text.exists_last hclose
  obtain ⟨container, name, hsplit, hname⟩ :=
    Text.exists_last (List.mem_append_left more (List.mem_append_right middle hdot))
  refine ⟨before, container, name, after, ?_, hname, hafter⟩
  rw [hfirst, hlast, ← List.append_assoc, ← List.append_assoc, hsplit]
  simp

/-- On a line that asks for the dictionary of a dotted name, the mark stands in front of the last
segment. -/
theorem qualifyLine_dictionary {last : List Char} (hlast : '.' ∉ last) (front : List Char) :
    qualifyLine ("Dictionary<".toList ++ (front ++ '.' :: last ++ ['>'])) =
      front ++ dictionaryMark ++ last := by
  have hfirst := splitFirst?_append opening_ne_nil (front ++ '.' :: (last ++ ['>']))
  have hline := qualifyLine_of_first hfirst hlast List.not_mem_nil
  simpa using hline

theorem qualify_of_single_line {s : String} (h : '\n' ∉ s.toList) :
    qualify s = String.ofList (qualifyLine s.toList) := by
  rw [qualify, List.splitOn_eq_singleton h, List.map_singleton, Text.join,
    String.intercalate_singleton]

end ApiTypings.TypeText.Closure
