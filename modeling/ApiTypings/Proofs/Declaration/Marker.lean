import ApiTypings.Proofs.Declaration.Comment
import ApiTypings.Proofs.Text.Line
import ApiTypings.Proofs.TypeText.Reading

/-!
Markers on one line.

The marker of a deprecated member is a comment that ends where it is closed and stands on the line
of the member, whatever the notes are: they are read as words, so that no end of a line is left of
them. A property is declared on one line if its name and its type stand on one, and then there is
nothing of it outside the line that it is commented out on. Types stand on one line if the names in
them do.
-/

namespace ApiTypings

open Text

namespace TypeText

theorem hereditary_oneLine : Hereditary OneLine where
  piece hpiece hwhole := hwhole.infix hpiece
  corrected hcs := by
    have hnames : ∀ r ∈ renames, OneLine r.2.toList := by decide
    refine rename_induction hcs fun r hr cs hcs c hc => ?_
    exact (mem_replaceChars hc).elim (hnames r hr c) (hcs c)

theorem oneLine_union {alternatives : List TypeForm}
    (h : ∀ f ∈ alternatives, OneLine f.render.toList) :
    OneLine (TypeForm.union alternatives).render.toList := by
  rw [TypeForm.render, TypeForm.renderAll_eq_map]
  exact OneLine.join (by decide) (List.forall_mem_map.2 h)

theorem oneLine_numbered {texts : List String} (h : ∀ s ∈ texts, OneLine s.toList) (n : Nat) :
    ∀ s ∈ TypeForm.numbered n texts, OneLine s.toList := by
  induction texts generalizing n with
  | nil => exact fun s hs => absurd hs List.not_mem_nil
  | cons text rest ih =>
      rw [List.forall_mem_cons] at h
      have hnumber : OneLine (toString n).toList := fun c hc =>
        endsLine_of_isDigit (TypeForm.isDigit_of_mem_toString hc)
      rw [TypeForm.numbered, List.forall_mem_cons]
      refine ⟨?_, ih h.2 (n + 1)⟩
      simp only [String.toList_append, oneLine_append]
      exact ⟨⟨⟨by decide, hnumber⟩, by decide⟩, h.1⟩

theorem oneLine_ofName {cs : List Char} (h : OneLine cs) : OneLine (ofName cs).render.toList := by
  refine ofName_induction (motive := fun f => OneLine f.render.toList) hereditary_oneLine
    ?_ ?_ ?_ ?_ ?_ h
  · decide
  · intro name hname
    rwa [TypeForm.render]
  · exact fun alternatives => oneLine_union
  · intro base hbase element helement
    have hbases : ∀ base ∈ ["Array", "Dictionary"], OneLine base.toList := by decide
    rw [TypeForm.render]
    simp only [String.toList_append, oneLine_append]
    exact ⟨⟨⟨hbases base hbase, by decide⟩, helement⟩, by decide⟩
  · intro parameters hparameters
    have htexts := oneLine_numbered (List.forall_mem_map.2 hparameters) 1
    rw [TypeForm.render, TypeForm.renderAll_eq_map]
    simp only [String.toList_append, oneLine_append]
    exact ⟨⟨by decide, OneLine.join (by decide) htexts⟩, by decide⟩

/-- A type stands on one line if the names in it do. -/
theorem oneLine_declared {e : Json} (h : ∀ s, .str s ∈ readParts e → OneLine s.toList) :
    OneLine (declared e).value.toList := by
  have hfallback : OneLine TypeForm.unresolvedText.toList := by decide
  exact ofJson_induction (motive := fun f => OneLine f.render.toList) hfallback
    (fun _ => hfallback) hfallback (fun _ => oneLine_union) fun s hs => oneLine_ofName (h s hs)

end TypeText

namespace Declaration

variable {p : Property} {name : String} {methods : List NameKey} {optional : Bool}

/-! ### Markers -/

theorem mem_escapeCommentChars {c : Char} {cs : List Char} (h : c ∈ escapeCommentChars cs) :
    c = '\\' ∨ c ∈ cs := by
  fun_induction escapeCommentChars cs with
  | case1 rest ih =>
      simp only [List.mem_cons] at h ⊢
      tauto
  | case2 d rest hkept ih =>
      rcases List.mem_cons.1 h with rfl | h
      · exact .inr List.mem_cons_self
      · exact (ih h).imp_right (List.mem_cons_of_mem d)
  | case3 => exact .inr h

theorem oneLine_escapeComment {s : String} (h : OneLine s.toList) :
    OneLine (escapeComment s).toList := by
  rw [escapeComment, String.toList_ofList]
  intro c hc
  rcases mem_escapeCommentChars hc with rfl | hmem
  · decide
  · exact h c hmem

/-- A marker is a comment that ends where it is closed, and it stands on one line. -/
theorem deprecatedMark_eq (d : Deprecation) :
    ∃ body, deprecatedMark (some d) = "/** " ++ body ++ " */ " ∧ OneLine body.toList ∧
      endings body = 0 := by
  refine ⟨_, rfl, oneLine_escapeComment ?_, endings_escapeComment _⟩
  have hwords : OneLine (join " " (words d.notes)).toList :=
    OneLine.join (by decide) fun word => oneLine_of_mem_words
  rw [toList_trim]
  refine OneLine.infix ?_ (trimChars_isInfix _)
  rw [String.toList_append, oneLine_append]
  exact ⟨by decide, hwords⟩

theorem oneLine_deprecatedMark (deprecation : Option Deprecation) :
    OneLine (deprecatedMark deprecation).toList := by
  cases deprecation with
  | none => exact fun c hc => absurd hc List.not_mem_nil
  | some d =>
      obtain ⟨body, hmark, hbody, -⟩ := deprecatedMark_eq d
      rw [hmark]
      simp only [String.toList_append, oneLine_append]
      exact ⟨⟨by decide, hbody⟩, by decide⟩

/-! ### Properties -/

theorem oneLine_quotedKeyChar (c : Char) : OneLine (quotedKeyChar c) ↔ endsLine c = false := by
  have hbackslash : endsLine '\\' = false := by decide
  unfold quotedKeyChar
  split <;> simp [OneLine, hbackslash]

theorem oneLine_quotedKeyText : OneLine (quotedKeyText name).toList ↔ OneLine name.toList := by
  have hquote : OneLine ['\''] := by decide
  have hchars : (quotedKeyText name).toList =
      ['\''] ++ name.toList.flatMap quotedKeyChar ++ ['\''] := by
    rw [quotedKeyText, String.toList_ofList]
    rfl
  rw [hchars, oneLine_append, oneLine_append, and_iff_left hquote, and_iff_right hquote]
  constructor
  · intro h c hc
    refine (oneLine_quotedKeyChar c).1 fun d hd => ?_
    exact h d (List.mem_flatMap.2 ⟨c, hc, hd⟩)
  · intro h d hd
    obtain ⟨c, hc, hd⟩ := List.mem_flatMap.1 hd
    exact (oneLine_quotedKeyChar c).2 (h c hc) d hd

theorem oneLine_memberKeyText : OneLine (memberKeyText name).toList ↔ OneLine name.toList := by
  unfold memberKeyText
  split
  · exact Iff.rfl
  · exact oneLine_quotedKeyText

/-- The declaration of a property behind the indentation. -/
def propertyDeclaration (p : Property) (name : String) (optional : Bool) : String :=
  deprecatedMark p.deprecation ++ (if p.readOnly then "readonly " else "") ++ memberKeyText name ++
    (if optional then "?" else "") ++ ": " ++ (TypeText.declared p.type).value ++ ";"

theorem propertyLine_eq (hname : p.name = .str name) (hremoval : removal? p.deprecation = none)
    (pad : String) : (propertyLine pad p methods optional).outcome =
      .ok (pad ++ propertyDeclaration p name optional) := by
  rw [propertyLine, hremoval, hname, propertyDeclaration]
  simp only [String.append_assoc]
  rfl

theorem oneLine_propertyDeclaration :
    OneLine (propertyDeclaration p name optional).toList ↔
      OneLine name.toList ∧ OneLine (TypeText.declared p.type).value.toList := by
  have hword : OneLine (if p.readOnly then "readonly " else "").toList := by
    split <;> decide
  have hoptional : OneLine (if optional then "?" else "").toList := by
    split <;> decide
  have hjoints : OneLine ": ".toList ∧ OneLine ";".toList := by decide
  simp only [propertyDeclaration, String.toList_append, oneLine_append, oneLine_deprecatedMark,
    hword, oneLine_memberKeyText, hoptional, hjoints, true_and, and_true]

/-- A property that was not removed is written as one text behind the indentation. If the text is
commented out, so is every line of it unless its name or its type goes on over several lines. -/
structure StaysOnLine (p : Property) (methods : List NameKey) (optional : Bool) (name : String)
    (line : String) : Prop where
  plain : ∀ pad, (propertyLine pad p methods optional).outcome = .ok (pad ++ line)
  commentedOut : ∀ pad record, collides record p = true →
    (classProperty pad record p methods optional).outcome =
      .ok (skippedLine pad collisionReason line)
  oneLine : OneLine line.toList ↔
    OneLine name.toList ∧ OneLine (TypeText.declared p.type).value.toList
  lines : ∀ pad reason, OneLine pad.toList → OneLine reason.toList → OneLine line.toList →
    lines (skippedLine pad reason line) = [pad ++ "// Skip. " ++ reason, pad ++ "//" ++ line]

theorem lines_skippedLine {pad reason line : String} (hpad : OneLine pad.toList)
    (hreason : OneLine reason.toList) (hline : OneLine line.toList) :
    lines (skippedLine pad reason line) = [pad ++ "// Skip. " ++ reason, pad ++ "//" ++ line] := by
  have hfirst : OneLine (pad ++ "// Skip. " ++ reason).toList := by
    simp only [String.toList_append, oneLine_append]
    exact ⟨⟨hpad, by decide⟩, hreason⟩
  have hsecond : OneLine (pad ++ "//" ++ line).toList := by
    simp only [String.toList_append, oneLine_append]
    exact ⟨⟨hpad, by decide⟩, hline⟩
  have hfull : pad ++ "//" ++ line ≠ "" := by
    simp
  have hlines := lines_of_oneLine hfirst hsecond hfull
  rwa [← String.append_assoc, ← String.append_assoc] at hlines

theorem staysOnLine (hname : p.name = .str name) (hremoval : removal? p.deprecation = none) :
    StaysOnLine p methods optional name (propertyDeclaration p name optional) where
  plain := propertyLine_eq hname hremoval
  commentedOut pad record hcollides := by
    have hcondition : (collides record p && (removal? p.deprecation).isNone) = true := by
      rw [hcollides, hremoval]
      rfl
    rw [classProperty, if_pos hcondition, Report.outcome_bind, propertyLine_eq hname hremoval,
      String.empty_append]
    rfl
  oneLine := oneLine_propertyDeclaration
  lines _ _ := lines_skippedLine

/-- Whatever the notes are, a marker is a comment that ends where it is closed, on one line. So a
property that is commented out is commented out as a whole if its name and its type stand on one
line, and a type does so if the names that are read in it do. -/
theorem marked_declaration_on_line :
    (∀ d : Deprecation, ∃ body, deprecatedMark (some d) = "/** " ++ body ++ " */ " ∧
      OneLine body.toList ∧ endings body = 0) ∧
    (∀ (p : Property) (name : String) (methods : List NameKey) (optional : Bool),
      p.name = .str name → removal? p.deprecation = none →
        ∃ line, StaysOnLine p methods optional name line) ∧
    ∀ e : Json, (∀ s, .str s ∈ TypeText.readParts e → OneLine s.toList) →
      OneLine (TypeText.declared e).value.toList :=
  ⟨deprecatedMark_eq, fun _ _ _ _ hname hremoval => ⟨_, staysOnLine hname hremoval⟩,
    fun _ => TypeText.oneLine_declared⟩

/-- A deprecated property that collides with another declaration, with notes on several lines which
try to end the comment. -/
def collidingProperty : Property where
  name := .str "R"
  type := .arr [.str "Array<Number>", .null]
  summary := ""
  since := []
  permission := "read-only"
  deprecation := some ⟨"1", "", "Use\r\n**//\u2028 S."⟩

def androidRecord : TypeRecord := { (default : TypeRecord) with name := "Titanium.Android" }

theorem marked_declaration_on_line_collidingProperty :
    collidingProperty.name = .str "R" ∧ removal? collidingProperty.deprecation = none ∧
      (∀ s, .str s ∈ TypeText.readParts collidingProperty.type → OneLine s.toList) ∧
      collides androidRecord collidingProperty = true ∧
      ∃ text, (classProperty "\t" androidRecord collidingProperty [] false).outcome = .ok text ∧
        lines text = ["\t// Skip. Redeclare block-scoped variable.",
          "\t///** @deprecated Use **\\// S. */ readonly R: Array<number>|" ++
            "number /* ERROR: unresolved type */;"] := by
  have hremoval : removal? collidingProperty.deprecation = none := by decide
  have hnames : ∀ s, .str s ∈ TypeText.readParts collidingProperty.type → OneLine s.toList := by
    intro s hs
    obtain rfl : s = "Array<Number>" := by
      simpa [collidingProperty, TypeText.readParts, TypeText.readItems] using hs
    decide
  have hcollides : collides androidRecord collidingProperty = true := by decide
  obtain ⟨line, hline⟩ := marked_declaration_on_line.2.1 collidingProperty "R" [] false rfl hremoval
  have htext : line = "/** @deprecated Use **\\// S. */ readonly R: Array<number>|" ++
      "number /* ERROR: unresolved type */;" := by
    have hplain := hline.plain ""
    rw [String.empty_append] at hplain
    refine Except.ok.inj (hplain.symm.trans ?_)
    decide +kernel
  have honeLine : OneLine line.toList :=
    hline.oneLine.2 ⟨by decide, marked_declaration_on_line.2.2 _ hnames⟩
  refine ⟨rfl, hremoval, hnames, hcollides, _, hline.commentedOut "\t" _ hcollides, ?_⟩
  rw [hline.lines "\t" collisionReason (by decide) (by decide) honeLine, htext]
  rfl

end Declaration

end ApiTypings
