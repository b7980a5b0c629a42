import ApiTypings.Text.Split

/-!
Cutting a text at a character and joining the pieces again.

No piece contains the character that a text is cut at, and pieces that do not contain it come back
when what they were joined to is cut. The text that joins them is given by its characters, so that
these laws can be used where it is written out.
-/

namespace ApiTypings.Text

variable {sep c : Char} {joint : String}

/-- No piece contains a character that the text is cut at. -/
theorem not_of_mem_splitOnP {p : Char → Bool} {cs piece : List Char} (h : piece ∈ cs.splitOnP p) :
    ∀ c ∈ piece, p c = false := by
  induction cs generalizing piece with
  | nil =>
      obtain rfl := List.mem_singleton.1 h
      exact fun c hc => absurd hc List.not_mem_nil
  | cons d cs ih =>
      obtain ⟨first, rest, hsplit⟩ := List.exists_cons_of_ne_nil (List.splitOnP_ne_nil p cs)
      rw [List.splitOnP_cons_eq_if_modifyHead] at h
      split at h
      · rcases List.mem_cons.1 h with rfl | h
        · exact fun c hc => absurd hc List.not_mem_nil
        · exact ih h
      next hd =>
        rw [hsplit, List.modifyHead_cons] at h
        rcases List.mem_cons.1 h with rfl | h
        · have hfirst : ∀ c ∈ first, p c = false := ih (hsplit ▸ List.mem_cons_self)
          exact List.forall_mem_cons.2 ⟨Bool.eq_false_iff.2 hd, hfirst⟩
        · exact ih (hsplit ▸ List.mem_cons_of_mem first h)

theorem not_mem_of_mem_splitOn {cs piece : List Char} (h : piece ∈ cs.splitOn sep) :
    sep ∉ piece := by
  rw [List.splitOn_eq_splitOnP] at h
  intro hmem
  simpa using not_of_mem_splitOnP h sep hmem

theorem not_mem_of_mem_pieces {s piece : String} (h : piece ∈ pieces sep s) :
    sep ∉ piece.toList := by
  obtain ⟨cs, hcs, rfl⟩ := List.mem_map.1 h
  rw [String.toList_ofList]
  exact not_mem_of_mem_splitOn hcs

theorem pieces_ne_nil (sep : Char) (s : String) : pieces sep s ≠ [] := by
  simp [pieces, List.splitOn_ne_nil]

/-- A text without the separator is a single piece. -/
theorem pieces_of_not_mem {s : String} (h : sep ∉ s.toList) : pieces sep s = [s] := by
  simp [pieces, List.splitOn_eq_singleton h]

theorem pieces_append (hjoint : joint.toList = [sep]) (front back : String) :
    pieces sep (front ++ joint ++ back) = pieces sep front ++ pieces sep back := by
  simp [pieces, hjoint, List.splitOn_append_cons_self]

theorem join_cons {parts : List String} (hne : parts ≠ []) (part : String) :
    join joint (part :: parts) = part ++ joint ++ join joint parts :=
  String.intercalate_cons_of_ne_nil hne

theorem toList_join_cons (hjoint : joint.toList = [sep]) {parts : List String} (hne : parts ≠ [])
    (part : String) :
    (join joint (part :: parts)).toList = part.toList ++ sep :: (join joint parts).toList := by
  rw [join_cons hne, String.toList_append, String.toList_append, hjoint, List.append_assoc,
    List.singleton_append]

theorem join_concat {parts : List String} (hne : parts ≠ []) (part : String) :
    join joint (parts ++ [part]) = join joint parts ++ joint ++ part := by
  simp only [join, String.intercalate_append_of_ne_nil hne (List.cons_ne_nil _ _),
    String.intercalate_singleton]

/-- What is written behind joined pieces belongs to the last one. -/
theorem join_concat_append (front : List String) (last suffix : String) :
    join joint (front ++ [last]) ++ suffix = join joint (front ++ [last ++ suffix]) := by
  by_cases hfront : front = []
  · subst hfront
    simp [join]
  · simp only [join_concat hfront, String.append_assoc]

/-- Joining pieces without the separator and cutting again gives them back. -/
theorem pieces_join (hjoint : joint.toList = [sep]) {parts : List String} (hne : parts ≠ [])
    (h : ∀ s ∈ parts, sep ∉ s.toList) : pieces sep (join joint parts) = parts := by
  induction parts with
  | nil => exact absurd rfl hne
  | cons part rest ih =>
      have hpart := pieces_of_not_mem (h part List.mem_cons_self)
      by_cases hrest : rest = []
      · subst hrest
        rw [join, String.intercalate_singleton, hpart]
      · have hpieces := ih hrest fun s hs => h s (List.mem_cons_of_mem _ hs)
        rw [join_cons hrest, pieces_append hjoint, hpart, hpieces, List.singleton_append]

/-- Joining the pieces of a text gives it back. -/
theorem join_pieces (hjoint : joint.toList = [sep]) (s : String) :
    join joint (pieces sep s) = s := by
  apply String.toList_injective
  rw [join, String.toList_intercalate, hjoint, pieces, List.map_map]
  simp [Function.comp_def, List.intercalate_splitOn]

theorem exists_last {cs : List Char} (h : c ∈ cs) :
    ∃ front back, cs = front ++ c :: back ∧ c ∉ back := by
  obtain ⟨back, front, hsplit, hback⟩ := List.eq_append_cons_of_mem (List.mem_reverse.2 h)
  refine ⟨front.reverse, back.reverse, ?_, by simpa using hback⟩
  rw [← List.reverse_inj, hsplit]
  simp

/-- A text with the separator has a last piece, and something in front of it. -/
theorem exists_last_piece (hjoint : joint.toList = [sep]) {s : String} (h : sep ∈ s.toList) :
    ∃ front last, s = front ++ joint ++ last ∧ sep ∉ last.toList := by
  obtain ⟨front, back, hsplit, hback⟩ := exists_last h
  refine ⟨String.ofList front, String.ofList back, ?_, by simpa using hback⟩
  apply String.toList_injective
  simp [hsplit, hjoint]

theorem mem_join {parts : List String} (h : c ∈ (join joint parts).toList) :
    c ∈ joint.toList ∨ ∃ part ∈ parts, c ∈ part.toList := by
  induction parts with
  | nil => exact absurd h List.not_mem_nil
  | cons part rest ih =>
    by_cases hrest : rest = []
    · subst hrest
      rw [join, String.intercalate_singleton] at h
      exact .inr ⟨part, List.mem_cons_self, h⟩
    · rw [join_cons hrest, String.toList_append, String.toList_append, List.mem_append,
        List.mem_append] at h
      rcases h with (hpart | hjoint) | hmore
      · exact .inr ⟨part, List.mem_cons_self, hpart⟩
      · exact .inl hjoint
      · rcases ih hmore with hjoint | ⟨other, hother, hc⟩
        · exact .inl hjoint
        · exact .inr ⟨other, List.mem_cons_of_mem part hother, hc⟩

theorem infix_join {part : String} {parts : List String} (hpart : part ∈ parts) :
    part.toList <:+: (join joint parts).toList := by
  induction parts with
  | nil => exact absurd hpart List.not_mem_nil
  | cons first rest ih =>
    by_cases hrest : rest = []
    · subst hrest
      obtain rfl := List.mem_singleton.1 hpart
      exact ⟨[], [], by simp [join]⟩
    · rw [join_cons hrest, String.toList_append]
      rcases List.mem_cons.1 hpart with rfl | hmore
      · rw [String.toList_append, List.append_assoc]
        exact (List.prefix_append _ _).isInfix
      · exact (ih hmore).trans (List.suffix_append _ _).isInfix

theorem mem_join_of_mem {part : String} {parts : List String} (hpart : part ∈ parts)
    (h : c ∈ part.toList) : c ∈ (join joint parts).toList :=
  (infix_join hpart).subset h

theorem mem_of_mem_pieces {s piece : String} (hpiece : piece ∈ pieces sep s)
    (h : c ∈ piece.toList) : c ∈ s.toList := by
  have hjoin : join (String.singleton sep) (pieces sep s) = s := join_pieces (by simp) s
  rw [← hjoin]
  exact mem_join_of_mem hpiece h

theorem join_ne_empty (hjoint : joint.toList = [sep]) {parts : List String} (hne : parts ≠ [])
    (hfull : ∀ s ∈ parts, s ≠ "") (h : ∀ s ∈ parts, sep ∉ s.toList) :
    join joint parts ≠ "" := by
  intro hempty
  have hpieces := pieces_join hjoint hne h
  rw [hempty] at hpieces
  exact hfull "" (hpieces ▸ List.mem_singleton.2 rfl) rfl

end ApiTypings.Text
