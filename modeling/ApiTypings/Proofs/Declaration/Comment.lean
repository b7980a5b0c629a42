import ApiTypings.Declaration.Block
import ApiTypings.Proofs.Text.Occurrence

/-!
Comments that end where they are closed.

Whatever ends a comment early makes declarations of the rest of it. Notes in front of a member and
the summary of a type are escaped, so that they cannot do this. The tombstone of a removed member
takes notes and version as they are, and so do the versions and platforms in which a type appeared:
each end of a comment in them is one more end of the comment they stand in.
-/

namespace ApiTypings.Declaration

/-- What ends a comment. -/
def ending : List Char := ['*', '/']

/-- How often a text ends the comment that it stands in. -/
def endings (s : String) : Nat := Text.occurrences ending s.toList

/-- A comment, as it is opened and closed. -/
def blockComment (body : String) : String := "/*" ++ body ++ "*/"

/-! ### Texts that stand next to each other -/

theorem ending_ne_nil : ending ≠ [] := List.cons_ne_nil _ _

/-- A text between two others that neither ends a comment nor has a part in an end of one. -/
def KeepsApart (joint : String) : Prop :=
  Text.Separates ending joint.toList ∧ endings joint = 0

instance (joint : String) : Decidable (KeepsApart joint) := inferInstanceAs (Decidable (_ ∧ _))

theorem KeepsApart.endings_append {joint : String} (h : KeepsApart joint) (front back : String) :
    endings (front ++ joint ++ back) = endings front + endings back := by
  rw [endings, String.toList_append, String.toList_append]
  exact h.1.divides ending_ne_nil h.2 front.toList back.toList

theorem endings_empty : endings "" = 0 := by decide

theorem keepsApart_lineFeed : KeepsApart "\n" := by decide

theorem keepsApart_blank : KeepsApart " " := by decide

theorem keepsApart_star : KeepsApart " * " := by decide

theorem keepsApart_removed : KeepsApart " * REMOVED in " := by decide

theorem endings_join {joint : String} (h : Text.Separates ending joint.toList)
    (parts : List String) :
    endings (Text.join joint parts) =
      (parts.map endings).sum + (parts.length - 1) * endings joint :=
  Text.occurrences_join ending_ne_nil h parts

theorem endings_trimEnd (s : String) : endings (Text.trimEnd s) = endings s := by
  have hblank : ∀ c ∈ ending, Text.isBlank c = false :=
    List.forall_mem_cons.2 ⟨rfl, List.forall_mem_singleton.2 rfl⟩
  rw [endings, Text.toList_trimEnd, Text.occurrences_trimEndChars ending_ne_nil hblank, endings]

/-- A comment is ended by what it is closed with and by whatever ends it within. -/
theorem endings_blockComment {opening gap : String} (hopening : endings ("/*" ++ opening) = 0)
    (hgap : KeepsApart gap) (inner : String) :
    endings (blockComment (opening ++ gap ++ inner ++ " ")) = endings inner + 1 := by
  have hwhole : blockComment (opening ++ gap ++ inner ++ " ") =
      "/*" ++ opening ++ gap ++ inner ++ " " ++ "*/" := by
    simp only [blockComment, String.append_assoc]
  have hclosing : endings "*/" = 1 := by decide
  rw [hwhole, keepsApart_blank.endings_append, hgap.endings_append, hopening, hclosing,
    Nat.zero_add]

/-! ### Escaped text -/

theorem head?_escapeCommentChars (cs : List Char) : (escapeCommentChars cs).head? = cs.head? := by
  fun_cases escapeCommentChars cs <;> rfl

theorem occurrences_escapeCommentChars (cs : List Char) :
    Text.occurrences ending (escapeCommentChars cs) = 0 := by
  fun_induction escapeCommentChars cs with
  | case1 rest ih =>
      rw [Text.occurrences_cons, Text.occurrences_cons, Text.occurrences_cons, ih]
      rfl
  | case2 c rest hkept ih =>
      have hnot : ending.isPrefixOf (c :: escapeCommentChars rest) = false := by
        refine Text.isPrefixOf_eq_false.2 fun hprefix => ?_
        -- The rest begins with a slash only if it did so before, and then it was escaped.
        obtain ⟨hc, hslash⟩ := List.cons_prefix_cons.1 hprefix
        obtain ⟨more, hmore⟩ := hslash
        have hhead := head?_escapeCommentChars rest
        rw [← hmore] at hhead
        obtain ⟨back, hback⟩ := List.head?_eq_some_iff.1 hhead.symm
        exact hkept back hc.symm hback
      rw [Text.occurrences_cons, hnot, ih]
      rfl
  | case3 => rfl

/-- Escaped text ends no comment. -/
theorem endings_escapeComment (s : String) : endings (escapeComment s) = 0 := by
  rw [endings, escapeComment, String.toList_ofList, occurrences_escapeCommentChars]

/-- The comment in front of a deprecated member ends once. -/
theorem endings_deprecatedMark (d : Deprecation) :
    ∃ body, deprecatedMark (some d) = blockComment body ++ " " ∧
      endings (blockComment body) = 1 := by
  refine ⟨"*" ++ " " ++ escapeComment
    (Text.trim ("@deprecated " ++ Text.join " " (Text.words d.notes))) ++ " ", ?_, ?_⟩
  · apply String.toList_injective
    simp [deprecatedMark, blockComment]
  · rw [endings_blockComment (by decide) keepsApart_blank, endings_escapeComment]

/-! ### Tombstones -/

theorem endings_pieces (s : String) : ((Text.pieces '\n' s).map endings).sum = endings s := by
  have hjoin := endings_join keepsApart_lineFeed.1 (Text.pieces '\n' s)
  rw [Text.join_pieces (by simp) s, keepsApart_lineFeed.2, Nat.mul_zero, Nat.add_zero] at hjoin
  exact hjoin.symm

theorem endings_continueNotes (pad notes : String) :
    endings (continueNotes pad notes) =
      endings notes + ((Text.pieces '\n' notes).length - 1) * endings pad := by
  have hjoint : Text.Separates ending ("\n" ++ pad ++ " * ").toList := by
    have hends : ("\n" ++ pad ++ " * ").toList = '\n' :: pad.toList ++ [' ', '*'] ++ [' '] := by
      simp
    rw [hends]
    exact Text.separates_of_ends (by decide) (by decide) _
  have hpad : endings ("\n" ++ pad ++ " * ") = endings pad := by
    have hfeed := keepsApart_lineFeed.endings_append "" (pad ++ " * " ++ "")
    rw [keepsApart_star.endings_append, endings_empty, Nat.zero_add, Nat.add_zero] at hfeed
    simpa only [String.empty_append, String.append_empty, String.append_assoc] using hfeed
  rw [continueNotes, endings_join hjoint, endings_pieces, hpad]

/-- The comment of a tombstone ends once more for each end in the version and in the notes, and for
each line in whose indentation there is one. -/
theorem endings_tombstone (pad name : String) (d : Deprecation) (commented : Bool)
    (keyword : String) :
    ∃ body, tombstone pad name d commented keyword =
        pad ++ blockComment body ++ "\n" ++ pad ++ (if commented then "// " else "") ++ keyword ++
          name ++ ": never;" ∧
      endings (blockComment body) = 1 + endings d.removed + endings d.notes +
        ((Text.pieces '\n' d.notes).length + 2) * endings pad := by
  refine ⟨"" ++ "\n" ++ (pad ++ " * REMOVED in " ++ d.removed ++ "\n" ++ pad ++ " * " ++
    continueNotes pad d.notes ++ "\n" ++ pad) ++ " ", ?_, ?_⟩
  · apply String.toList_injective
    simp [tombstone, blockComment]
  · have hpieces : 1 ≤ (Text.pieces '\n' d.notes).length :=
      List.length_pos_iff.2 (Text.pieces_ne_nil _ _)
    rw [endings_blockComment (by decide) keepsApart_lineFeed, keepsApart_lineFeed.endings_append,
      keepsApart_star.endings_append, keepsApart_lineFeed.endings_append,
      keepsApart_removed.endings_append, endings_continueNotes]
    obtain ⟨n, hn⟩ := Nat.exists_eq_add_of_le' hpieces
    simp only [hn, Nat.add_sub_cancel, Nat.add_mul, Nat.one_mul]
    omega

/-! ### Documentation -/

theorem endings_platformName (platform : String) :
    endings (platformName platform) = endings platform := by
  have hnames : ∀ entry ∈ platformNames, endings entry.2 = endings entry.1 := by decide
  rw [platformName]
  cases hfound : platformNames.lookup platform with
  | none => rfl
  | some name =>
      obtain ⟨front, back, hsplit, -⟩ := List.lookup_eq_some_iff.1 hfound
      exact hnames (platform, name) (hsplit ▸ List.mem_append_right front List.mem_cons_self)

theorem endings_sinceText (since : Since) :
    endings (sinceText since) = (since.map fun s => endings s.1 + endings s.2).sum := by
  have hjoint : KeepsApart ", " := by decide
  have hversion (s : String × String) :
      endings (s.2 ++ " (" ++ platformName s.1 ++ ")") = endings s.1 + endings s.2 := by
    have hopen : KeepsApart " (" := by decide
    have hclose : KeepsApart ")" := by decide
    have hwhole := hclose.endings_append (s.2 ++ " (" ++ platformName s.1) ""
    rw [hopen.endings_append, endings_platformName, endings_empty, String.append_empty] at hwhole
    rw [hwhole]
    omega
  rw [sinceText, endings_join hjoint.1, hjoint.2, List.map_map]
  simp only [Function.comp_def, hversion, Nat.mul_zero, Nat.add_zero]

/-- Of the lines of a type's documentation, only the one on its first versions is not escaped. -/
theorem endings_docLines (record : TypeRecord) :
    ((docLines record).map endings).sum =
      (record.since.map fun s => endings s.1 + endings s.2).sum := by
  have hsince : endings ("@since " ++ sinceText record.since) =
      (record.since.map fun s => endings s.1 + endings s.2).sum := by
    have htag : KeepsApart "@since " := by decide
    have hwhole := htag.endings_append "" (sinceText record.since)
    rwa [endings_empty, Nat.zero_add, String.empty_append, endings_sinceText] at hwhole
  have hsummary : ((if record.summary = "" then []
      else (Text.pieces '\n' (Text.trim record.summary)).map escapeComment).map endings).sum =
        0 := by
    split
    · rfl
    · simp [Function.comp_def, endings_escapeComment]
  have hversions : ((if record.since.isEmpty then []
      else ["@since " ++ sinceText record.since]).map endings).sum =
        (record.since.map fun s => endings s.1 + endings s.2).sum := by
    split
    next hnone => rw [List.isEmpty_iff.1 hnone]; rfl
    · rw [List.map_singleton, List.sum_singleton, hsince]
  rw [docLines, List.map_append, List.map_append, List.sum_append, List.sum_append, hsummary,
    hversions, Nat.zero_add]
  cases record.deprecation with
  | none => rfl
  | some d => rw [List.map_singleton, List.sum_singleton, endings_escapeComment, Nat.add_zero]

/-- The lines between the first and the last one of a documentation comment. -/
theorem endings_rows (pad : String) (lines : List String) :
    endings
        (String.join (lines.map fun line => Text.trimEnd (pad ++ " * " ++ line) ++ "\n") ++ pad) =
      (lines.map endings).sum + (lines.length + 1) * endings pad := by
  induction lines with
  | nil => simp
  | cons line rest ih =>
      rw [List.map_cons, String.join_cons, String.append_assoc,
        keepsApart_lineFeed.endings_append, ih, endings_trimEnd, keepsApart_star.endings_append]
      simp only [List.map_cons, List.sum_cons, List.length_cons, Nat.add_mul, Nat.one_mul]
      omega

/-- The documentation comment ends once more for each end in a version or a platform, and for each
line in whose indentation there is one. -/
theorem endings_docComment (pad : String) {record : TypeRecord} (h : docLines record ≠ []) :
    ∃ body, docComment pad record = pad ++ blockComment body ++ "\n" ∧
      endings (blockComment body) = 1 + (record.since.map fun s => endings s.1 + endings s.2).sum +
        ((docLines record).length + 1) * endings pad := by
  have hlines : (docLines record).isEmpty = false := by simpa using h
  refine ⟨"*" ++ "\n" ++ (String.join ((docLines record).map fun line =>
    Text.trimEnd (pad ++ " * " ++ line) ++ "\n") ++ pad) ++ " ", ?_, ?_⟩
  · apply String.toList_injective
    simp [docComment, hlines, blockComment]
  · rw [endings_blockComment (by decide) keepsApart_lineFeed, endings_rows, endings_docLines]
    omega

/-! ### Once and no more -/

/-- The comment in front of a deprecated member ends once, whatever the notes are. A tombstone's
does if and only if neither the indentation nor the version nor the notes end a comment, and that of
a type if and only if neither the indentation nor any version or platform does. -/
theorem comments_end_once_iff (pad name : String) (d : Deprecation) (commented : Bool)
    (keyword : String) (record : TypeRecord) :
    (∃ body, deprecatedMark (some d) = blockComment body ++ " " ∧
        endings (blockComment body) = 1) ∧
      (∃ body, tombstone pad name d commented keyword =
          pad ++ blockComment body ++ "\n" ++ pad ++ (if commented then "// " else "") ++ keyword ++
            name ++ ": never;" ∧
        (endings (blockComment body) = 1 ↔
          endings pad = 0 ∧ endings d.removed = 0 ∧ endings d.notes = 0)) ∧
      if docLines record = [] then docComment pad record = ""
      else ∃ body, docComment pad record = pad ++ blockComment body ++ "\n" ∧
        (endings (blockComment body) = 1 ↔
          endings pad = 0 ∧ ∀ s ∈ record.since, endings s.1 = 0 ∧ endings s.2 = 0) := by
  refine ⟨endings_deprecatedMark d, ?_, ?_⟩
  · obtain ⟨body, htext, hcount⟩ := endings_tombstone pad name d commented keyword
    refine ⟨body, htext, ?_⟩
    have hpad : ((Text.pieces '\n' d.notes).length + 2) * endings pad = 0 ↔ endings pad = 0 := by
      rw [Nat.mul_eq_zero]
      omega
    rw [hcount]
    omega
  · split
    next hnone => simp [docComment, hnone]
    next hlines =>
      obtain ⟨body, htext, hcount⟩ := endings_docComment pad hlines
      refine ⟨body, htext, ?_⟩
      have hpad : ((docLines record).length + 1) * endings pad = 0 ↔ endings pad = 0 := by
        rw [Nat.mul_eq_zero]
        omega
      have hversions : (record.since.map fun s => endings s.1 + endings s.2).sum = 0 ↔
          ∀ s ∈ record.since, endings s.1 = 0 ∧ endings s.2 = 0 := by
        rw [List.sum_eq_zero_iff_forall_eq_nat, List.forall_mem_map]
        exact forall₂_congr fun s _ => Nat.add_eq_zero_iff
      rw [hcount, ← hversions]
      omega

/-- The deprecation of a member that was removed, with notes that end a comment. -/
def outspokenRemoval : Deprecation := ⟨"", "1", "a */ b"⟩

/-- Notes break out of a tombstone. -/
theorem tombstone_ends_twice_outspokenRemoval :
    ∃ body, tombstone "" "x" outspokenRemoval false "" = blockComment body ++ "\nx: never;" ∧
      endings (blockComment body) = 2 :=
  ⟨"\n * REMOVED in 1\n * a */ b\n ", by decide, by decide⟩

end ApiTypings.Declaration
