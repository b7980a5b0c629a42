import ApiTypings.Proofs.Text.Replacement
import ApiTypings.Proofs.TypeText.Name

/-!
The corrections of names in a type text.

Corrections are made in a whole type text at once, and made again in each part that is taken out of
it. Neither matters. No character that structures a type text stands in a name that is corrected, so
the parts between these characters are corrected each on its own; and a text in which nothing is
left to correct stays as it is.
-/

namespace ApiTypings.TypeText

variable {c : Char} {cs : List Char}

/-- That a name which is corrected stands in a text. -/
def NamesMatrix (cs : List Char) : Prop := ∃ r ∈ renames, r.1.toList <:+: cs

instance (cs : List Char) : Decidable (NamesMatrix cs) :=
  inferInstanceAs (Decidable (∃ r ∈ renames, r.1.toList <:+: cs))

/-- One correction. -/
def correct (cs : List Char) (r : String × String) : List Char :=
  Text.replaceChars r.1.toList r.2.toList cs

theorem rename_eq_foldl (cs : List Char) : rename cs = renames.foldl correct cs := rfl

/-- What each correction keeps is kept by all of them. -/
theorem rename_induction {P : List Char → Prop} (h : P cs)
    (hstep : ∀ r ∈ renames, ∀ cs, P cs → P (correct cs r)) : P (rename cs) := by
  rw [rename_eq_foldl]
  exact List.foldlRecOn renames correct h fun cs hcs r hr => hstep r hr cs hcs

theorem rename_of_not_namesMatrix (h : ¬NamesMatrix cs) : rename cs = cs := by
  refine rename_induction (P := (· = cs)) rfl fun r hr other hother => ?_
  subst hother
  exact Text.replaceChars_of_not_infix _ fun hinfix => h ⟨r, hr, hinfix⟩

/-- Corrections do not reach across a character that is in none of the names. -/
theorem rename_append_cons (hc : ∀ r ∈ renames, c ∉ r.1.toList) (front back : List Char) :
    rename (front ++ c :: back) = rename front ++ c :: rename back := by
  have hnames : ∀ r ∈ renames, r.1.toList ≠ [] := by decide
  simp only [rename_eq_foldl]
  generalize renames = rs at hc hnames ⊢
  induction rs generalizing front back with
  | nil => rfl
  | cons r rest ih =>
    rw [List.forall_mem_cons] at hc hnames
    have hfirst : correct (front ++ c :: back) r = correct front r ++ c :: correct back r :=
      Text.replaceChars_append_cons hnames.1 hc.1 r.2.toList front back
    rw [List.foldl_cons, List.foldl_cons, List.foldl_cons, hfirst, ih _ _ hc.2 hnames.2]

theorem not_mem_of_isMark (h : isMark c = true) : ∀ r ∈ renames, c ∉ r.1.toList := by
  rcases eq_of_isMark h with rfl | rfl | rfl | rfl | rfl | rfl <;> decide

theorem rename_nil : rename [] = [] := rename_of_not_namesMatrix (by decide)

/-! ### Names -/

theorem Plain.correct (h : Plain cs) {r : String × String} (hr : Plain r.2.toList) :
    Plain (correct cs r) where
  nonempty := Text.replaceChars_ne_nil hr.nonempty h.nonempty
  trimmed := by
    have hcs := Text.trimChars_eq_self_iff.1 h.trimmed
    have hnew := Text.trimChars_eq_self_iff.1 hr.trimmed
    refine Text.trimChars_eq_self_iff.2 ⟨fun c hc => ?_, fun c hc => ?_⟩
    · exact (Text.head?_replaceChars hr.nonempty hc).elim (hnew.1 c) (hcs.1 c)
    · exact (Text.getLast?_replaceChars hr.nonempty hc).elim (hnew.2 c) (hcs.2 c)
  unmarked c hc := (Text.mem_replaceChars hc).elim (hr.unmarked c) (h.unmarked c)

/-- A corrected name is a single name. -/
theorem Plain.rename (h : Plain cs) : Plain (rename cs) := by
  have hdotted : ∀ r ∈ renames, isDottedName r.2.toList = true := by decide
  exact rename_induction h fun r hr cs hcs =>
    hcs.correct (plain_of_isDottedName (hdotted r hr))

/-- Only the correction of a name brings its correct form into a text. -/
theorem eq_of_rename_eq {name : List Char} (hname : ∀ r ∈ renames, ¬r.2.toList <:+: name)
    (h : rename cs = name) : cs = name := by
  simp only [rename_eq_foldl] at h
  generalize renames = rs at h hname
  induction rs generalizing cs with
  | nil => exact h
  | cons r rest ih =>
    rw [List.forall_mem_cons] at hname
    have hfirst : correct cs r = name := ih h hname.2
    rcases Text.replaceChars_eq_or_infix r.1.toList r.2.toList cs with hsame | hinfix
    · exact hsame.symm.trans hfirst
    · exact absurd (hfirst ▸ hinfix) hname.1

theorem rename_eq_iff {name : List Char} (hnew : ∀ r ∈ renames, ¬r.2.toList <:+: name)
    (hold : ¬NamesMatrix name) : rename cs = name ↔ cs = name := by
  refine ⟨eq_of_rename_eq hnew, ?_⟩
  rintro rfl
  exact rename_of_not_namesMatrix hold

end ApiTypings.TypeText
