import ApiTypings.Proofs.Text.Pieces
import ApiTypings.Text.Blank

/-!
Texts that stand on one line.

Whatever ends a line is blank, so no word has an end of a line in it, and words with blanks in
between stand on one line. A line feed between two texts that do so ends the line of the first, and
nothing else ends one.
-/

namespace ApiTypings.Text

variable {a b cs : List Char}

/-- That no character of a text ends a line. -/
def OneLine (cs : List Char) : Prop := ∀ c ∈ cs, endsLine c = false

-- Named, since characters are finitely many and there is an instance that goes through all of them.
instance (cs : List Char) : Decidable (OneLine cs) := List.decidableBAll _ cs

@[simp] theorem oneLine_append : OneLine (a ++ b) ↔ OneLine a ∧ OneLine b := List.forall_mem_append

theorem OneLine.infix (h : OneLine b) (hab : a <:+: b) : OneLine a :=
  fun c hc => h c (hab.subset hc)

theorem OneLine.join {joint : String} (hjoint : OneLine joint.toList) {parts : List String}
    (h : ∀ s ∈ parts, OneLine s.toList) : OneLine (join joint parts).toList := by
  intro c hc
  rcases mem_join hc with hc | ⟨part, hpart, hc⟩
  · exact hjoint c hc
  · exact h part hpart c hc

theorem isBlank_of_endsLine {c : Char} (h : endsLine c = true) : isBlank c = true := by
  simp only [endsLine, isBlank, Bool.or_eq_true, Bool.and_eq_true, decide_eq_true_eq,
    beq_iff_eq] at h ⊢
  omega

theorem endsLine_of_isDigit {c : Char} (h : c.isDigit = true) : endsLine c = false := by
  have hrange : 48 ≤ c.toNat ∧ c.toNat ≤ 57 := by
    simpa [Char.isDigit, UInt32.le_iff_toNat_le] using h
  simp only [endsLine, Bool.or_eq_false_iff, Bool.and_eq_false_iff, decide_eq_false_iff_not,
    beq_eq_false_iff_ne]
  omega

theorem oneLine_of_mem_words {s word : String} (h : word ∈ words s) : OneLine word.toList := by
  obtain ⟨cs, hcs, rfl⟩ := List.mem_map.1 h
  rw [String.toList_ofList]
  intro c hc
  have hblank := not_of_mem_splitOnP (List.mem_filter.1 hcs).1 c hc
  exact Bool.eq_false_iff.2 fun hend => Bool.false_ne_true (hblank.symm.trans (isBlank_of_endsLine hend))

/-! ### Lines -/

/-- Characters that do not end a line belong to the line that has begun. -/
theorem OneLine.linesOfChars_append (h : OneLine a) (current back : List Char) :
    linesOfChars current (a ++ back) = linesOfChars (a.reverse ++ current) back := by
  induction a generalizing current with
  | nil => rfl
  | cons c rest ih =>
      have hc : endsLine c = false := h c List.mem_cons_self
      have hreturn : c ≠ '\r' := by
        rintro rfl
        exact absurd hc (by decide)
      rw [List.cons_append, linesOfChars, if_neg (by simp [hc]),
        ih (fun d hd => h d (List.mem_cons_of_mem c hd)), List.reverse_cons, List.append_assoc]
      · rfl
      · exact fun more hmore => absurd hmore hreturn

/-- Two texts on lines of their own. -/
theorem lines_of_oneLine {first second : String} (hfirst : OneLine first.toList)
    (hsecond : OneLine second.toList) (hfull : second ≠ "") :
    lines (first ++ "\n" ++ second) = [first, second] := by
  have hne : second.toList ≠ [] := by simpa using hfull
  have hrest : linesOfChars [] second.toList = [second.toList] := by
    have hwhole := hsecond.linesOfChars_append [] []
    rw [List.append_nil, List.append_nil, linesOfChars, if_neg (by simpa using hne),
      List.reverse_reverse] at hwhole
    exact hwhole
  have hparts : (first ++ "\n" ++ second).toList = first.toList ++ '\n' :: second.toList := by simp
  have hfeed : linesOfChars first.toList.reverse ('\n' :: second.toList) =
      first.toList :: linesOfChars [] second.toList := by
    rw [linesOfChars, if_pos (by decide), List.reverse_reverse]
    exact fun more hmore => absurd hmore (by decide)
  rw [lines, hparts, hfirst.linesOfChars_append, List.append_nil, hfeed, hrest]
  simp

end ApiTypings.Text
