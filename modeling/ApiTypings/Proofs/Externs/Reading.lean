import ApiTypings.Externs.File
import ApiTypings.Proofs.Declaration.Comment
import ApiTypings.Proofs.Text.Pieces

/-!
What a file of externs says.

A compiler reads a file of externs line by line, and passes over what stands in comments. Each line
that is written is either part of a comment or a statement of its own, so that the statements of a
file are read block by block.
-/

namespace ApiTypings.Externs

open Declaration

/-! ### Lines outside of comments -/

/-- Reads a line, from within a comment or from outside of comments: what it says outside of them,
and whether a comment is left open behind it. -/
def readLine : Bool → List Char → List Char × Bool
  | within, [] => ([], within)
  | false, '/' :: '*' :: rest => readLine true rest
  | false, c :: rest => ((c :: (readLine false rest).1), (readLine false rest).2)
  | true, '*' :: '/' :: rest => readLine false rest
  | true, _ :: rest => readLine true rest

/-- Reads lines one after the other. -/
def readLines (within : Bool) : List String → List String × Bool
  | [] => ([], within)
  | line :: rest =>
    let (said, within) := readLine within line.toList
    let (others, within) := readLines within rest
    (String.ofList said :: others, within)

def saysNothing (line : String) : Bool := line.toList.all Text.isBlank

/-- The lines of a text that say something outside of comments. -/
def statementLines (text : String) : List String :=
  (readLines false (Text.pieces '\n' text)).1.filter (!saysNothing ·)

variable {within : Bool} {cs : List Char} {s line : String} {lines others statements : List String}

theorem readLine_outside (h : '/' ∉ cs) : readLine false cs = (cs, false) := by
  induction cs with
  | nil => rfl
  | cons c rest ih =>
      rw [readLine, ih fun hc => h (List.mem_cons_of_mem c hc)]
      exact fun _ hc => absurd (hc ▸ List.mem_cons_self) h

/-- A comment goes on as long as nothing ends it. -/
theorem readLine_within (h : Text.occurrences ending cs = 0) : readLine true cs = ([], true) := by
  induction cs with
  | nil => rfl
  | cons c rest ih =>
      rw [Text.occurrences_cons, Nat.add_eq_zero_iff] at h
      rw [readLine, ih h.2]
      -- Were the comment ended here, the end would be counted at its star.
      rintro more rfl rfl
      exact absurd h.1 (by simp [ending])

theorem readLines_cons (within : Bool) (line : String) (rest : List String) :
    readLines within (line :: rest) =
      (String.ofList (readLine within line.toList).1 ::
          (readLines (readLine within line.toList).2 rest).1,
        (readLines (readLine within line.toList).2 rest).2) := rfl

theorem readLines_append (within : Bool) (lines others : List String) :
    readLines within (lines ++ others) =
      ((readLines within lines).1 ++ (readLines (readLines within lines).2 others).1,
        (readLines (readLines within lines).2 others).2) := by
  induction lines generalizing within with
  | nil => rfl
  | cons line rest ih =>
      rw [List.cons_append, readLines_cons, readLines_cons, ih, List.cons_append]

theorem readLines_within (h : ∀ line ∈ lines, endings line = 0) :
    readLines true lines = (List.replicate lines.length "", true) := by
  induction lines with
  | nil => rfl
  | cons line rest ih =>
      have hline : readLine true line.toList = ([], true) :=
        readLine_within (h line List.mem_cons_self)
      rw [readLines_cons, hline, ih fun other hother => h other (List.mem_cons_of_mem line hother)]
      rfl

theorem endings_eq_zero_of_mem_pieces (h : endings s = 0) (hline : line ∈ Text.pieces '\n' s) :
    endings line = 0 := by
  rw [← endings_pieces, List.sum_eq_zero_iff_forall_eq_nat] at h
  exact h _ (List.mem_map_of_mem hline)

/-! ### Blocks -/

/-- What lines say, read from outside of comments; they may have line feeds in them, and leave no
comment open. -/
def Reads (lines statements : List String) : Prop :=
  ∃ said, readLines false (lines.flatMap (Text.pieces '\n')) = (said, false) ∧
    said.filter (!saysNothing ·) = statements

theorem reads_nil : Reads [] [] := ⟨[], rfl, rfl⟩

theorem reads_empty : Reads [""] [] := ⟨[""], by decide, by decide⟩

theorem Reads.append {more : List String} (h : Reads lines statements)
    (hothers : Reads others more) : Reads (lines ++ others) (statements ++ more) := by
  obtain ⟨said, hsaid, rfl⟩ := h
  obtain ⟨rest, hrest, rfl⟩ := hothers
  refine ⟨said ++ rest, ?_, List.filter_append ..⟩
  rw [List.flatMap_append, readLines_append, hsaid, hrest]

theorem pieces_join_lines (hne : lines ≠ []) :
    Text.pieces '\n' (Text.join "\n" lines) = lines.flatMap (Text.pieces '\n') := by
  induction lines with
  | nil => exact absurd rfl hne
  | cons line rest ih =>
      by_cases hrest : rest = []
      · subst hrest
        simp [Text.join]
      · rw [Text.join_cons hrest, Text.pieces_append (by simp), ih hrest, List.flatMap_cons]

/-- Lines that are joined are read as they are. -/
theorem Reads.join (h : Reads lines statements) : Reads [Text.join "\n" lines] statements := by
  by_cases hnone : lines = []
  · subst hnone
    obtain ⟨said, hsaid, rfl⟩ := h
    obtain rfl : [] = said := congrArg Prod.fst hsaid
    exact reads_empty
  · obtain ⟨said, hsaid, hstatements⟩ := h
    refine ⟨said, ?_, hstatements⟩
    rw [List.flatMap_singleton, pieces_join_lines hnone, hsaid]

theorem Reads.statementLines (h : Reads lines statements) :
    statementLines (Text.join "\n" lines) = statements := by
  obtain ⟨said, hsaid, hstatements⟩ := h.join
  rw [List.flatMap_singleton] at hsaid
  rw [Externs.statementLines, hsaid, hstatements]

/-- A text that stays on its line and outside of comments. -/
structure StandsAlone (s : String) : Prop where
  unbroken : '\n' ∉ s.toList
  unslashed : '/' ∉ s.toList

instance (s : String) : Decidable (StandsAlone s) :=
  decidable_of_iff ('\n' ∉ s.toList ∧ '/' ∉ s.toList)
    ⟨fun ⟨unbroken, unslashed⟩ => ⟨unbroken, unslashed⟩, fun h => ⟨h.unbroken, h.unslashed⟩⟩

theorem StandsAlone.append {other : String} (h : StandsAlone s) (hother : StandsAlone other) :
    StandsAlone (s ++ other) := by
  constructor
  · rw [String.toList_append, List.mem_append]
    exact not_or.2 ⟨h.unbroken, hother.unbroken⟩
  · rw [String.toList_append, List.mem_append]
    exact not_or.2 ⟨h.unslashed, hother.unslashed⟩

theorem standsAlone_join {joint : String} (hjoint : StandsAlone joint)
    (h : ∀ line ∈ lines, StandsAlone line) : StandsAlone (Text.join joint lines) := by
  constructor
  · intro hc
    rcases Text.mem_join hc with hc | ⟨line, hline, hc⟩
    · exact hjoint.unbroken hc
    · exact (h line hline).unbroken hc
  · intro hc
    rcases Text.mem_join hc with hc | ⟨line, hline, hc⟩
    · exact hjoint.unslashed hc
    · exact (h line hline).unslashed hc

theorem StandsAlone.endings_eq_zero (h : StandsAlone s) : endings s = 0 := by
  rw [endings, Text.occurrences, List.countP_eq_zero]
  intro rest hrest hprefix
  have hslash : '/' ∈ rest :=
    (List.isPrefixOf_iff_prefix.1 hprefix).subset (List.mem_cons_of_mem _ List.mem_cons_self)
  exact h.unslashed (((List.mem_tails rest s.toList).1 hrest).subset hslash)

theorem reads_statement (h : StandsAlone line) (hstated : saysNothing line = false) :
    Reads [line] [line] := by
  refine ⟨[line], ?_, by simp [hstated]⟩
  rw [List.flatMap_singleton, Text.pieces_of_not_mem h.unbroken, readLines_cons,
    readLine_outside h.unslashed, String.ofList_toList]
  rfl

/-- A comment says nothing if nothing but its last line ends it. -/
theorem reads_comment (h : ∀ line ∈ lines, endings line = 0) :
    Reads (["/**"] ++ lines ++ [" */"]) [] := by
  have hopening : readLines false (Text.pieces '\n' "/**") = ([""], true) := by decide
  have hclosing : readLines true (Text.pieces '\n' " */") = ([""], false) := by decide
  have hinner : readLines true (lines.flatMap (Text.pieces '\n')) =
      (List.replicate (lines.flatMap (Text.pieces '\n')).length "", true) := by
    refine readLines_within fun line hline => ?_
    obtain ⟨whole, hwhole, hpiece⟩ := List.mem_flatMap.1 hline
    exact endings_eq_zero_of_mem_pieces (h whole hwhole) hpiece
  refine ⟨[""] ++ List.replicate (lines.flatMap (Text.pieces '\n')).length "" ++ [""], ?_, ?_⟩
  · rw [List.flatMap_append, List.flatMap_append, List.flatMap_singleton, List.flatMap_singleton,
      readLines_append, readLines_append, hopening, hinner, hclosing]
  · have hempty : saysNothing "" = true := rfl
    simp [List.filter_append, hempty]

end ApiTypings.Externs
