import ApiTypings.Externs.File
import ApiTypings.Proofs.Declaration.Comment
import ApiTypings.Proofs.Success

/-!
Annotations that end no comment.

What a description says of a record is written into comments as it is: summaries and descriptions,
versions by platform, and types in their spelling for annotations. A document is quiet if none of
these ends a comment; then no line that is made of them does.
-/

namespace ApiTypings

/-- A value that ends no comment if it is a text. -/
def Json.IsQuiet (v : Json) : Prop := ∀ s, v = .str s → Declaration.endings s = 0

/-- Versions by platform that end no comment. -/
def Json.IsQuietVersions (v : Json) : Prop :=
  ∀ s ∈ v.asSince, Declaration.endings s.1 = 0 ∧ Declaration.endings s.2 = 0

namespace Externs

open Declaration Success

/-! ### Documents that end no comment -/

/-- A type whose annotation ends no comment. -/
def QuietType (type : Json) (optional repeatable : Bool) : Prop :=
  endings (TypeText.Closure.annotation type optional repeatable) = 0

@[mk_iff]
structure QuietDocument (doc : Fields) : Prop where
  summary : (doc.get "summary").IsQuiet
  since : (doc.get "since").IsQuietVersions

@[mk_iff]
structure QuietProperty (doc : Fields) : Prop extends QuietDocument doc where
  type : QuietType (doc.get "type") false false

@[mk_iff]
structure QuietParameter (doc : Fields) : Prop where
  summary : (doc.get "summary").IsQuiet
  type : QuietType (doc.get "type") (doc.get "optional").truthy (doc.get "repeatable").truthy

@[mk_iff]
structure QuietMethod (doc : Fields) : Prop extends QuietDocument doc where
  parameters : ∀ p ∈ (doc.get "parameters").members, QuietParameter p.fields
  returns : ∀ type, firstReturn? (doc.get "returns") = some type → QuietType type false false

structure QuietPseudo (cls : Fields) : Prop where
  summary : (cls.get "summary").IsQuiet
  properties : ∀ m ∈ (cls.get "properties").members,
    (m.fields.get "summary").IsQuiet ∧ QuietType (m.fields.get "type") false false

structure QuietClass (cls : Fields) : Prop extends QuietDocument cls where
  extended : (cls.get "extends").IsQuiet
  description : (cls.get "description").IsQuiet
  properties : ∀ m ∈ (cls.get "properties").members, QuietProperty m.fields
  methods : ∀ m ∈ (cls.get "methods").members, QuietMethod m.fields

/-- A record of whose annotations none ends the comment that it stands in. -/
def QuietRecord (cls : Fields) : Prop := if isPseudo cls then QuietPseudo cls else QuietClass cls

/-! ### Lines -/

variable {v : Json} {s name : String} {doc : Fields} {lines : List String}

theorem endings_commentLine (parts : List String) :
    endings (commentLine parts) = (parts.map endings).sum := by
  have hmark : endings lineMark = 0 := by decide
  rw [commentLine, endings_join keepsApart_blank.1, keepsApart_blank.2, Nat.mul_zero, Nat.add_zero,
    List.map_cons, List.sum_cons, hmark, Nat.zero_add]

theorem endings_freeText (hquiet : v.IsQuiet) (h : freeText v = .ok s) : endings s = 0 := by
  have hjoint : KeepsApart "\n * " := by decide
  unfold freeText at h
  split at h
  · cases v with
    | str text =>
        obtain rfl := Except.ok.inj h
        rw [endings_join hjoint.1, endings_pieces, hjoint.2, Nat.mul_zero, Nat.add_zero]
        exact hquiet text rfl
    | _ => cases h
  · obtain rfl := Except.ok.inj h
    rfl

theorem endings_sinceLine (hquiet : v.IsQuietVersions) (h : sinceLine v = .ok s) :
    endings s = 0 := by
  cases v with
  | null =>
      obtain rfl := Except.ok.inj h
      rfl
  | obj fields =>
      have htag : endings "@since" = 0 := by decide
      have hline : commentLine ["@since", sinceText (Json.obj fields).asSince] = s := by
        rw [sinceText, Json.asSince, List.map_map]
        exact Except.ok.inj h
      have hversions : ((Json.obj fields).asSince.map fun s => endings s.1 + endings s.2).sum =
          0 := by
        rw [List.sum_eq_zero_iff_forall_eq_nat, List.forall_mem_map]
        exact fun s hs => Nat.add_eq_zero_iff.2 (hquiet s hs)
      rw [← hline, endings_commentLine]
      simp [htag, endings_sinceText, hversions]
  | _ => cases h

/-- A text within two others that keep apart what they stand between. -/
theorem endings_enclosed {opening closing : String} (hopening : KeepsApart opening)
    (hclosing : KeepsApart closing) (s : String) :
    endings (opening ++ s ++ closing) = endings s := by
  have hopened := hopening.endings_append "" s
  have hclosed := hclosing.endings_append (opening ++ s) ""
  rw [String.empty_append, endings_empty, Nat.zero_add] at hopened
  rwa [String.append_empty, endings_empty, Nat.add_zero, hopened] at hclosed

theorem endings_braced (s : String) : endings (braced s) = endings s :=
  endings_enclosed (by decide) (by decide) s

theorem endings_recordField {type : String} (hname : endings name = 0) (htype : endings type = 0) :
    endings (recordField name type) = 0 := by
  have hblank : endings " " = 0 := by decide
  have hcolon : KeepsApart ":" := by decide
  have hlabel := hcolon.endings_append name ""
  have hbrackets : endings ("(" ++ type ++ ")") = 0 :=
    (endings_enclosed (by decide) (by decide) type).trans htype
  rw [String.append_empty, endings_empty, Nat.add_zero, hname] at hlabel
  rw [recordField, endings_commentLine]
  simp only [List.map_cons, List.map_nil, List.sum_cons, List.sum_nil, hblank, hlabel,
    Nat.zero_add, Nat.add_zero]
  split
  · exact hbrackets
  · exact htype

theorem endings_recordOpening : endings recordOpening = 0 := by decide

theorem endings_recordClosing : endings recordClosing = 0 := by decide

theorem endings_fields {fields : List String} (h : ∀ field ∈ fields, endings field = 0) :
    endings (Text.join ",\n" fields) = 0 := by
  have hjoint : KeepsApart ",\n" := by decide
  have hsum : (fields.map endings).sum = 0 := by
    rw [List.sum_eq_zero_iff_forall_eq_nat, List.forall_mem_map]
    exact h
  rw [endings_join hjoint.1, hjoint.2, hsum, Nat.mul_zero]

/-- What every member's comment starts with. -/
theorem endings_opening {summary since : String} (hquiet : QuietDocument doc)
    (hsummary : freeText (doc.get "summary") = .ok summary)
    (hsince : sinceLine (doc.get "since") = .ok since) :
    ∀ line ∈ [commentLine [summary], since], endings line = 0 := by
  simp [endings_commentLine, endings_freeText hquiet.summary hsummary,
    endings_sinceLine hquiet.since hsince]

theorem endings_returnLines
    (hquiet : ∀ type, firstReturn? v = some type → QuietType type false false) :
    ∀ line ∈ returnLines v, endings line = 0 := by
  have htag : endings "@return" = 0 := by decide
  rw [returnLines]
  cases hreturn : firstReturn? v with
  | none => simp
  | some type =>
      have hannotation : endings (TypeText.Closure.annotation type false false) = 0 :=
        hquiet type hreturn
      simp [endings_commentLine, endings_braced, htag, hannotation]

theorem endings_taggedText {tags : List String} (htags : ∀ tag ∈ tags, endings tag = 0)
    (hquiet : v.IsQuiet) (h : taggedText tags v = .ok lines) :
    ∀ line ∈ lines, endings line = 0 := by
  unfold taggedText at h
  split at h
  · obtain ⟨text, htext, rfl⟩ := map_eq_ok.1 h
    have hsum : (tags.map endings).sum = 0 := by
      rw [List.sum_eq_zero_iff_forall_eq_nat, List.forall_mem_map]
      exact htags
    simp [endings_commentLine, hsum, endings_freeText hquiet htext]
  · obtain rfl := Except.ok.inj h
    simp

end Externs

end ApiTypings
