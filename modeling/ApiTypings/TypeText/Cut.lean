import ApiTypings.Text.Blank

/-!
Cutting a type text at its top level.

Brackets are `<` and `(` against `>` and `)`, without regard to which closes which. A separator cuts
where as many brackets have been opened as closed. Arguments are collected by a scan from the left
that keeps the pieces found so far; alternatives are cut off one by one.
-/

namespace ApiTypings.TypeText

/-- What a character adds to the nesting depth. -/
def bracketStep (c : Char) : Int :=
  if c = '<' ∨ c = '(' then 1 else if c = '>' ∨ c = ')' then -1 else 0

/-! ### Arguments -/

/-- The state of the scan: the depth, the current piece with its last character first, and the
finished pieces with the last one first. -/
structure ArgumentScan where
  depth : Int
  current : List Char
  done : List (List Char)

namespace ArgumentScan

def start : ArgumentScan := ⟨0, [], []⟩

/-- Takes in one character: a comma at depth zero ends the current piece. -/
def step (s : ArgumentScan) (c : Char) : ArgumentScan :=
  let depth := s.depth + bracketStep c
  if c = ',' ∧ depth = 0 then ⟨depth, [], Text.trimChars s.current.reverse :: s.done⟩
  else ⟨depth, c :: s.current, s.done⟩

/-- The pieces of a finished scan. A blank text has none. -/
def finish (s : ArgumentScan) : List (List Char) :=
  let tail := Text.trimChars s.current.reverse
  if tail.isEmpty && s.done.isEmpty then [] else (tail :: s.done).reverse

end ArgumentScan

/-- The arguments of a list, trimmed. -/
def splitArguments (s : List Char) : List (List Char) :=
  (s.foldl ArgumentScan.step .start).finish

/-! ### Alternatives -/

/-- Cuts at a separator of depth zero. `depth` is the depth reached, `current` holds the characters
of the current piece, the last one first. -/
def cutFrom (sep : Char) (depth : Int) (current : List Char) : List Char → List (List Char)
  | [] => [Text.trimChars current.reverse]
  | c :: rest =>
    if bracketStep c ≠ 0 then cutFrom sep (depth + bracketStep c) (c :: current) rest
    else if c = sep ∧ depth = 0 then
      Text.trimChars current.reverse :: cutFrom sep depth [] rest
    else cutFrom sep depth (c :: current) rest

/-- The pieces of a text between separators of depth zero, trimmed; always at least one. -/
def cutTopLevel (sep : Char) (s : List Char) : List (List Char) := cutFrom sep 0 [] s

/-! ### Pieces -/

theorem infix_of_mem_cutFrom {sep : Char} {depth : Int} {current s piece : List Char}
    (h : piece ∈ cutFrom sep depth current s) : piece <:+: current.reverse ++ s := by
  induction s generalizing depth current with
  | nil =>
      obtain rfl := List.mem_singleton.1 h
      rw [List.append_nil]
      exact Text.trimChars_isInfix _
  | cons c rest ih =>
      have hshift (hmore : piece <:+: (c :: current).reverse ++ rest) :
          piece <:+: current.reverse ++ c :: rest := by simpa using hmore
      simp only [cutFrom] at h
      split at h
      · exact hshift (ih h)
      · split at h
        · rcases List.mem_cons.1 h with rfl | h
          · exact (Text.trimChars_isInfix _).trans (List.prefix_append _ _).isInfix
          · have hrest : rest <:+ current.reverse ++ c :: rest :=
              (List.suffix_cons c rest).trans (List.suffix_append _ _)
            exact (ih h).trans hrest.isInfix
        · exact hshift (ih h)

/-- Each piece stands in the text. -/
theorem infix_of_mem_cutTopLevel {sep : Char} {s piece : List Char}
    (h : piece ∈ cutTopLevel sep s) : piece <:+: s :=
  infix_of_mem_cutFrom h

private theorem mem_finish {state : ArgumentScan} {p : List Char} (h : p ∈ state.finish) :
    p ∈ state.done ∨ p = Text.trimChars state.current.reverse := by
  unfold ArgumentScan.finish at h
  by_cases hb : (Text.trimChars state.current.reverse).isEmpty && state.done.isEmpty
  · simp [hb] at h
  · rw [if_neg hb, List.mem_reverse, List.mem_cons] at h
    exact h.symm

private theorem infix_of_mem_scan (s : List Char) (state : ArgumentScan) {p : List Char}
    (h : p ∈ (s.foldl ArgumentScan.step state).finish) :
    p ∈ state.done ∨ p <:+: state.current.reverse ++ s := by
  induction s generalizing state with
  | nil =>
      rw [List.append_nil]
      refine (mem_finish h).imp_right ?_
      rintro rfl
      exact Text.trimChars_isInfix _
  | cons c rest ih =>
      have hnext := ih _ h
      unfold ArgumentScan.step at hnext
      dsimp only at hnext
      split at hnext
      · rcases hnext with hdone | hmore
        · rcases List.mem_cons.1 hdone with rfl | hdone
          · exact .inr ((Text.trimChars_isInfix _).trans (List.prefix_append _ _).isInfix)
          · exact .inl hdone
        · have hrest : rest <:+ state.current.reverse ++ c :: rest :=
            (List.suffix_cons c rest).trans (List.suffix_append _ _)
          exact .inr ((by simpa using hmore : p <:+: rest).trans hrest.isInfix)
      · exact hnext.imp_right fun hmore => by simpa using hmore

/-- Each argument stands in the text. -/
theorem infix_of_mem_splitArguments {s piece : List Char} (h : piece ∈ splitArguments s) :
    piece <:+: s :=
  (infix_of_mem_scan s .start h).resolve_left List.not_mem_nil

end ApiTypings.TypeText
