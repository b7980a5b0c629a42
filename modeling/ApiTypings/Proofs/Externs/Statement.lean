import ApiTypings.Proofs.Externs.Acceptance
import ApiTypings.Proofs.Externs.Binding
import ApiTypings.Proofs.Externs.Quiet

/-!
Files of externs whose statements are well formed.

Whatever a record is annotated with, each of its statements starts with the name that it is declared
by, and binds what it should. Only for the root there is no such name: its constants and functions
are variables, but what stands on the prototype of nothing, and a record type without a name, are
bound to no identifier. All this is so as long as what is annotated does not end the comment that
it stands in, since annotations take texts as they are.
-/

namespace ApiTypings.Externs

open Declaration Success

/-- A record as it should be: its own name is made of identifiers, those of its properties and
methods are identifiers, those of parameters stand alone, and its annotations can be written. -/
structure Documented (key : String) (cls : Fields) : Prop where
  named : (Json.obj cls).NamedByText
  annotatable : AnnotatableRecord cls
  name : ∀ name, recordName cls key = .ok name → isQualified name = true
  properties : ∀ m ∈ (cls.get "properties").members, ∀ name, m.name = .str name →
    isProperIdentifier name.toList = true
  methods : ∀ m ∈ (cls.get "methods").members, ∀ name, m.name = .str name →
    isProperIdentifier name.toList = true
  parameters : ∀ m ∈ (cls.get "methods").members, ∀ p ∈ (m.fields.get "parameters").members,
    ∀ name, p.name = .str name → StandsAlone name

variable {v type : Json} {s name declName owner line statement rootName key : String}
  {cls doc : Fields} {m : Named} {body lines others : List String} {P Q : Prop}

/-! ### Blocks -/

/-- Lines whose statements all bind what they should, if and only if a condition holds. -/
def BindsWhen (P : Prop) (lines : List String) : Prop :=
  ∃ statements, Reads lines statements ∧ ((∀ line ∈ statements, bindsWell line = true) ↔ P)

theorem BindsWhen.append (h : BindsWhen P lines) (hothers : BindsWhen Q others) :
    BindsWhen (P ∧ Q) (lines ++ others) := by
  obtain ⟨statements, hreads, hiff⟩ := h
  obtain ⟨more, hmore, hothers⟩ := hothers
  exact ⟨_, hreads.append hmore, List.forall_mem_append.trans (and_congr hiff hothers)⟩

theorem BindsWhen.congr (h : BindsWhen P lines) (hPQ : P ↔ Q) : BindsWhen Q lines := by
  obtain ⟨statements, hreads, hiff⟩ := h
  exact ⟨statements, hreads, hiff.trans hPQ⟩

theorem BindsWhen.join (h : BindsWhen P lines) : BindsWhen P [Text.join "\n" lines] := by
  obtain ⟨statements, hreads, hiff⟩ := h
  exact ⟨statements, hreads.join, hiff⟩

theorem bindsWhen_of_reads (h : Reads lines []) : BindsWhen True lines := ⟨[], h, by simp⟩

theorem bindsWhen_statement (h : StandsAlone statement) (hend : ';' ∈ statement.toList) :
    BindsWhen (bindsWell statement = true) [statement] := by
  have hstated : saysNothing statement = false := by
    rw [saysNothing, List.all_eq_false]
    exact ⟨';', hend, by decide⟩
  exact ⟨[statement], reads_statement h hstated, List.forall_mem_singleton⟩

/-- A statement with a comment of its own in front. -/
theorem bindsWhen_annotated (hbody : ∀ line ∈ body, endings line = 0) (h : StandsAlone statement)
    (hend : ';' ∈ statement.toList) :
    BindsWhen (bindsWell statement = true) (["/**"] ++ body ++ [" */", statement, ""]) := by
  have hlines : ["/**"] ++ body ++ [" */", statement, ""] =
      ["/**"] ++ body ++ [" */"] ++ ([statement] ++ [""]) := by
    simp only [List.append_assoc, List.cons_append, List.nil_append]
  rw [hlines]
  refine ((bindsWhen_of_reads (reads_comment hbody)).append
    ((bindsWhen_statement h hend).append (bindsWhen_of_reads reads_empty))).congr ?_
  rw [true_and, and_true]

theorem bindsWhen_mapM {α β : Type} {f : α → Except Fault β} {linesOf : β → List String}
    {R : α → Prop} {as : List α} {bs : List β} (hbs : as.mapM f = .ok bs)
    (h : ∀ a ∈ as, ∀ b, f a = .ok b → BindsWhen (R a) (linesOf b)) :
    BindsWhen (∀ a ∈ as, R a) (bs.flatMap linesOf) := by
  induction as generalizing bs with
  | nil =>
      obtain rfl := Except.ok.inj hbs
      exact (bindsWhen_of_reads reads_nil).congr (by simp)
  | cons a rest ih =>
      rw [List.mapM_cons] at hbs
      obtain ⟨b, hb, hbs⟩ := bind_eq_ok.1 hbs
      obtain ⟨others, hothers, hbs⟩ := bind_eq_ok.1 hbs
      obtain rfl := Except.ok.inj hbs
      have hrest := ih hothers fun a' ha' => h a' (List.mem_cons_of_mem a ha')
      exact ((h a List.mem_cons_self b hb).append hrest).congr List.forall_mem_cons.symm

/-! ### Members -/

theorem bindProperty_eq_ok {bound : BoundProperty} (hquiet : QuietProperty m.fields)
    (hname : ∀ name, m.name = .str name → isProperIdentifier name.toList = true)
    (h : bindProperty owner m = .ok bound) :
    ∃ name body, m.name = .str name ∧ (∀ line ∈ body, endings line = 0) ∧
      bound.lines = ["/**"] ++ body ++ [" */", owner ++ placed (isUpper name) name ++ ";", ""] ∧
      ∀ field ∈ bound.writable, endings field = 0 := by
  obtain ⟨summary, hsummary, h⟩ := bind_eq_ok.1 h
  obtain ⟨since, hsince, h⟩ := bind_eq_ok.1 h
  obtain ⟨name, hjoinable, h⟩ := bind_eq_ok.1 h
  have hstr := joinable_eq_ok hjoinable
  have hannotation : endings (TypeText.Closure.annotation (m.fields.get "type") false false) = 0 :=
    hquiet.type
  have hquietName := endings_of_identifier (hname name hstr)
  have hreadOnly (readOnly : Bool) :
      ∀ line ∈ if readOnly then [commentLine ["@readonly"]] else [], endings line = 0 := by
    cases readOnly <;> decide
  have htype : ∀ line ∈ [commentLine ["@type",
      braced (TypeText.Closure.annotation (m.fields.get "type") false false), name]],
      endings line = 0 := by
    have htag : endings "@type" = 0 := by decide
    simp [endings_commentLine, endings_braced, htag, hannotation, hquietName]
  refine ⟨name, _, hstr, List.forall_mem_append.2 ⟨List.forall_mem_append.2
    ⟨endings_opening hquiet.toQuietDocument hsummary hsince,
      hreadOnly ((m.fields.get "permission").text? == some "read-only")⟩, htype⟩, ?_⟩
  dsimp only at h
  cases hupper : isUpper name with
  | true =>
      rw [hupper, if_pos rfl] at h
      obtain rfl := Except.ok.inj h
      refine ⟨?_, by simp⟩
      simp only [placed, if_true, List.append_assoc, List.cons_append, List.nil_append]
  | false =>
      rw [hupper, if_neg Bool.false_ne_true] at h
      obtain rfl := Except.ok.inj h
      refine ⟨?_, fun field hfield => ?_⟩
      · simp only [placed, Bool.false_eq_true, if_false, List.append_assoc, List.cons_append,
          List.nil_append, String.append_assoc]
      · simp only [Option.mem_def, Option.ite_none_left_eq_some, Option.some_inj] at hfield
        exact hfield.2 ▸ endings_recordField hquietName hannotation

/-- A property is bound well, unless it stands on the prototype of the root. -/
theorem bindsWhen_bindProperty {bound : BoundProperty} (hdeclared : IsDeclared declName)
    (hname : ∀ name, m.name = .str name → isProperIdentifier name.toList = true)
    (hquiet : QuietProperty m.fields) (h : bindProperty (ownerOf declName) m = .ok bound) :
    BindsWhen (declName = "" → ∀ name, m.name = .str name → isUpper name = true) bound.lines := by
  obtain ⟨name, body, hstr, hbody, hlines, -⟩ := bindProperty_eq_ok hquiet hname h
  have hend : StandsAlone ";" := by decide
  have hstatement := ((standsAlone_ownerOf hdeclared).append
    (standsAlone_placed (isUpper name) (hname name hstr))).append hend
  rw [hlines]
  refine (bindsWhen_annotated hbody hstatement (by simp)).congr ?_
  rw [bindsWell_placed hdeclared (hname name hstr) endsName_semicolon]
  refine forall_congr' fun _ => ⟨fun hupper other hother => ?_, fun hupper => hupper name hstr⟩
  rwa [Json.str.inj (hother.symm.trans hstr)]

/-- The name that a parameter is declared by stands alone if its own name does. -/
theorem standsAlone_parameterLine {line : String × String}
    (hname : ∀ name, m.name = .str name → StandsAlone name) (hquiet : QuietParameter m.fields)
    (h : parameterLine m = .ok line) : endings line.1 = 0 ∧ StandsAlone line.2 := by
  obtain ⟨renamed, hrenamed, h⟩ := bind_eq_ok.1 h
  obtain ⟨summary, hsummary, h⟩ := bind_eq_ok.1 h
  obtain ⟨name, hjoinable, h⟩ := bind_eq_ok.1 h
  obtain rfl := Except.ok.inj h
  have halone : StandsAlone name := by
    rw [joinable_eq_ok hjoinable] at hrenamed
    obtain ⟨key, -, hcase⟩ := map_eq_ok.1 hrenamed
    split at hcase
    next own hown =>
      split at hcase
      · obtain rfl := Json.str.inj hcase
        exact (hname own hown).append (by decide)
      · exact hname name hcase
    next hother => exact absurd hcase (hother name)
  have hannotation : endings (TypeText.Closure.annotation (m.fields.get "type")
      (m.fields.get "optional").truthy (m.fields.get "repeatable").truthy) = 0 := hquiet.type
  have htag : endings "@param" = 0 := by decide
  refine ⟨?_, halone⟩
  simp [endings_commentLine, endings_braced, htag, hannotation, halone.endings_eq_zero,
    endings_freeText hquiet.summary hsummary]

/-- A method is bound well, unless it stands on the prototype of the root. -/
theorem bindsWhen_bindMethod {creatable : Bool} (hdeclared : IsDeclared declName)
    (hname : ∀ name, m.name = .str name → isProperIdentifier name.toList = true)
    (hparameters : ∀ p ∈ (m.fields.get "parameters").members,
      ∀ name, p.name = .str name → StandsAlone name)
    (hquiet : QuietMethod m.fields)
    (h : bindMethod (ownerOf declName ++ if creatable then "prototype." else "") m = .ok lines) :
    BindsWhen (declName = "" → creatable = false) lines := by
  obtain ⟨summary, hsummary, h⟩ := bind_eq_ok.1 h
  obtain ⟨since, hsince, h⟩ := bind_eq_ok.1 h
  obtain ⟨name, hjoinable, h⟩ := bind_eq_ok.1 h
  obtain ⟨parameters, hparameterLines, h⟩ := bind_eq_ok.1 h
  obtain rfl := Except.ok.inj h
  have hstr := joinable_eq_ok hjoinable
  have hquietParameters := forall_mem_of_mapM hparameterLines fun p hp line hline =>
    standsAlone_parameterLine (hparameters p hp) (hquiet.parameters p hp) hline
  have hbody := List.forall_mem_append.2 ⟨List.forall_mem_append.2
    ⟨endings_opening hquiet.toQuietDocument hsummary hsince,
      List.forall_mem_map.2 fun line hline => (hquietParameters line hline).1⟩,
    endings_returnLines hquiet.returns⟩
  have hjoined : StandsAlone (Text.join ", " (parameters.map (·.2))) :=
    standsAlone_join (by decide)
      (List.forall_mem_map.2 fun line hline => (hquietParameters line hline).2)
  have hopening : StandsAlone " = function(" := by decide
  have hclosing : StandsAlone ") \x7b\x7d;" := by decide
  -- The prototype is part of the owner here, and part of what is bound to it for a property.
  have howner : (ownerOf declName ++ if creatable then "prototype." else "") ++ name =
      ownerOf declName ++ placed (!creatable) name := by
    cases creatable <;> simp [placed, String.append_assoc]
  have hstatement : StandsAlone (ownerOf declName ++ placed (!creatable) name ++
      (" = function(" ++ Text.join ", " (parameters.map (·.2)) ++ ") \x7b\x7d;")) :=
    ((standsAlone_ownerOf hdeclared).append (standsAlone_placed _ (hname name hstr))).append
      ((hopening.append hjoined).append hclosing)
  have hends : EndsName (" = function(" ++ Text.join ", " (parameters.map (·.2)) ++
      ") \x7b\x7d;") :=
    ⟨' ', by simp, ("= function(" ++ Text.join ", " (parameters.map (·.2)) ++
      ") \x7b\x7d;").toList, by simp⟩
  have hblock := bindsWhen_annotated hbody hstatement (by simp)
  rw [bindsWell_placed hdeclared (hname name hstr) hends, Bool.not_eq_true'] at hblock
  rw [← howner] at hblock
  simpa only [List.append_assoc, List.cons_append, List.nil_append, String.append_assoc]
    using hblock

/-! ### Records -/

/-- The name in a document is that of its record. -/
theorem Documented.isQualified_own (h : Documented key cls)
    (hname : cls.get? "name" = some (.str name)) : isQualified name = true := by
  obtain ⟨s, hs, hstr⟩ := h.named.1 _ (Fields.mem_of_get? hname)
  obtain rfl := Json.str.inj hstr
  refine h.name name ?_
  rw [recordName, Fields.get, hname]
  simp [Json.truthy, hs]

theorem isDeclared_of_dictionaryOwner (hdeclared : IsDeclared declName) (hdoc : Documented key cls)
    (h : dictionaryOwner cls declName = .ok owner) : IsDeclared owner := by
  unfold dictionaryOwner at h
  split at h
  · obtain rfl := Except.ok.inj h
    exact hdeclared
  · cases hown : cls.get? "name" with
    | none =>
        rw [hown] at h
        exact .inl (Except.ok.inj h).symm
    | some v =>
        rw [hown] at h
        cases v with
        | str name =>
            obtain rfl := Except.ok.inj h
            exact .inr (hdoc.isQualified_own hown)
        | _ => cases h

theorem bindsWhen_dictionaryLines {writable dictionary : List String}
    (hdeclared : IsDeclared declName) (hdoc : Documented key cls)
    (hwritable : ∀ field ∈ writable, endings field = 0)
    (h : dictionaryLines cls declName writable = .ok dictionary) : BindsWhen True dictionary := by
  unfold dictionaryLines at h
  split at h
  · obtain rfl := Except.ok.inj h
    exact bindsWhen_of_reads reads_nil
  · obtain ⟨owner, howner, rfl⟩ := map_eq_ok.1 h
    obtain ⟨marked, hmarked, hbinding⟩ :=
      dictionaryName_of_isDeclared (isDeclared_of_dictionaryOwner hdeclared hdoc howner)
    have hbody : ∀ line ∈ [recordOpening, Text.join ",\n" writable, recordClosing],
        endings line = 0 := by
      simp [endings_recordOpening, endings_recordClosing, endings_fields hwritable]
    have hstatement : StandsAlone (bindingOf marked ++ ";") :=
      (standsAlone_bindingOf hmarked).append (by decide)
    rw [hbinding]
    exact (bindsWhen_annotated hbody hstatement (by simp)).congr
      (iff_true_intro (bindsWell_bindingOf hmarked endsName_semicolon))

theorem bindsWhen_propertiesText {text : String} {dictionary : List String}
    (hdeclared : IsDeclared declName) (hdoc : Documented key cls)
    (hquiet : ∀ m ∈ (cls.get "properties").members, QuietProperty m.fields)
    (h : propertiesText cls declName = .ok (text, dictionary)) :
    BindsWhen (declName = "" → ∀ m ∈ (cls.get "properties").members, ∀ name,
      m.name = .str name → isUpper name = true) [text] ∧ BindsWhen True dictionary := by
  obtain ⟨bound, hbound, h⟩ := bind_eq_ok.1 h
  obtain ⟨lines, hlines, h⟩ := bind_eq_ok.1 h
  obtain ⟨rfl, rfl⟩ := Prod.mk.inj (Except.ok.inj h)
  have hmembers := bindsWhen_mapM hbound fun m hm _ hb =>
    bindsWhen_bindProperty hdeclared (hdoc.properties m hm) (hquiet m hm) hb
  have hfields : ∀ b ∈ bound, ∀ field ∈ b.writable, endings field = 0 := by
    refine forall_mem_of_mapM hbound fun m hm b hb => ?_
    obtain ⟨-, -, -, -, -, hfields⟩ := bindProperty_eq_ok (hquiet m hm) (hdoc.properties m hm) hb
    exact hfields
  have hwritable : ∀ field ∈ bound.filterMap (·.writable), endings field = 0 := by
    intro field hfield
    obtain ⟨b, hb, hfield⟩ := List.mem_filterMap.1 hfield
    exact hfields b hb field hfield
  refine ⟨hmembers.join.congr ?_, bindsWhen_dictionaryLines hdeclared hdoc hwritable hlines⟩
  exact ⟨fun h hroot m hm => h m hm hroot, fun h m hm hroot => h hroot m hm⟩

theorem members_of_null (h : v = .null) : v.members = [] := by
  subst h
  rfl

theorem bindsWhen_propertiesPart {properties dictionary : List String}
    (hdeclared : IsDeclared declName) (hdoc : Documented key cls)
    (hquiet : ∀ m ∈ (cls.get "properties").members, QuietProperty m.fields)
    (h : propertiesPart cls declName = .ok (properties, dictionary)) :
    BindsWhen (declName = "" → ∀ m ∈ (cls.get "properties").members, ∀ name,
      m.name = .str name → isUpper name = true) properties ∧ BindsWhen True dictionary := by
  unfold propertiesPart at h
  split at h
  next hnull =>
    obtain ⟨rfl, rfl⟩ := Prod.mk.inj (Except.ok.inj h)
    have hnothing := bindsWhen_of_reads reads_nil
    exact ⟨hnothing.congr (by simp [members_of_null hnull]), hnothing⟩
  · obtain ⟨⟨text, _⟩, htext, h⟩ := map_eq_ok.1 h
    obtain ⟨rfl, rfl⟩ := Prod.mk.inj h
    obtain ⟨hproperties, hdictionary⟩ :=
      bindsWhen_propertiesText hdeclared hdoc hquiet htext
    exact ⟨((bindsWhen_of_reads reads_empty).append hproperties).congr (by rw [true_and]),
      hdictionary⟩

theorem bindsWhen_methodsPart {methods : List String} (hdeclared : IsDeclared declName)
    (hdoc : Documented key cls) (hquiet : ∀ m ∈ (cls.get "methods").members, QuietMethod m.fields)
    (h : methodsPart cls declName = .ok methods) :
    BindsWhen (declName = "" → (cls.get "__creatable").truthy = true →
      (cls.get "methods").members = []) methods := by
  unfold methodsPart at h
  split at h
  next hnull =>
    obtain rfl := Except.ok.inj h
    exact (bindsWhen_of_reads reads_nil).congr (by simp [members_of_null hnull])
  · obtain ⟨text, htext, rfl⟩ := map_eq_ok.1 h
    obtain ⟨lines, hlines, htext⟩ := bind_eq_ok.1 htext
    obtain rfl := Except.ok.inj htext
    have hmembers : BindsWhen (∀ m ∈ (cls.get "methods").members,
        declName = "" → (cls.get "__creatable").truthy = false) (lines.flatMap id) :=
      bindsWhen_mapM hlines fun m hm _ hb =>
        bindsWhen_bindMethod hdeclared (hdoc.methods m hm) (hdoc.parameters m hm) (hquiet m hm) hb
    rw [List.flatMap_id] at hmembers
    refine ((bindsWhen_of_reads reads_empty).append hmembers.join).congr ?_
    rw [true_and, List.eq_nil_iff_forall_not_mem]
    constructor
    · intro h hroot hcreatable m hm
      exact absurd (h m hm hroot) (by simp [hcreatable])
    · intro h m hm hroot
      rw [← Bool.not_eq_true]
      exact fun hcreatable => h hroot hcreatable m hm

/-- The last lines of the comment of a type. -/
theorem reads_described {front comment : List String} (hquiet : QuietClass cls)
    (hfront : ∀ line ∈ front, endings line = 0)
    (h : (do
      let description ← taggedText ["@description"] (cls.get "description")
      let since ← match cls.get "since" with
        | .null => .ok []
        | v => (sinceLine v).map ([·])
      pure (["/**"] ++ front ++ description ++ since ++ [" */"])) = .ok comment) :
    Reads comment [] := by
  obtain ⟨description, hdescription, h⟩ := bind_eq_ok.1 h
  have hdescribed : ∀ line ∈ description, endings line = 0 :=
    endings_taggedText (List.forall_mem_singleton.2 (by decide)) hquiet.description hdescription
  have hbody (since : List String) (hsince : ∀ line ∈ since, endings line = 0) :
      Reads (["/**"] ++ front ++ description ++ since ++ [" */"]) [] := by
    have hcomment := reads_comment (List.forall_mem_append.2
      ⟨List.forall_mem_append.2 ⟨hfront, hdescribed⟩, hsince⟩)
    simpa only [List.append_assoc] using hcomment
  have hsince := hquiet.since
  generalize cls.get "since" = versions at h hsince
  cases versions with
  | null =>
      obtain rfl := Except.ok.inj h
      exact hbody [] (by simp)
  | _ =>
      obtain ⟨since, hlines, h⟩ := bind_eq_ok.1 h
      obtain ⟨line, hline, rfl⟩ := map_eq_ok.1 hlines
      obtain rfl := Except.ok.inj h
      exact hbody [line] (List.forall_mem_singleton.2 (endings_sinceLine hsince hline))

/-- The comment of a type ends with its last line. -/
theorem reads_typeComment {comment : List String} (hquiet : QuietClass cls)
    (h : typeComment cls = .ok comment) : Reads comment [] := by
  unfold typeComment at h
  obtain ⟨summary, hsummary, h⟩ := bind_eq_ok.1 h
  have htag : endings "@extends" = 0 := by decide
  have hcreated (creatable : Bool) :
      ∀ line ∈ if creatable then [commentLine ["@constructor"]] else [], endings line = 0 := by
    cases creatable <;> decide
  have hfront := List.forall_mem_append.2
    ⟨endings_taggedText (by simp) hquiet.summary hsummary, hcreated (cls.get "__creatable").truthy⟩
  dsimp only at h
  split at h
  · obtain ⟨extended, hextended, h⟩ := bind_eq_ok.1 h
    obtain ⟨s, hs, rfl⟩ := map_eq_ok.1 hextended
    refine reads_described hquiet (List.forall_mem_append.2 ⟨hfront, ?_⟩) h
    simp [endings_commentLine, endings_braced, htag, hquiet.extended s (joinable_eq_ok hs)]
  · exact reads_described hquiet (List.forall_mem_append.2 ⟨hfront, by simp⟩) h

theorem endings_recordProperty {line : String × String}
    (hname : ∀ name, m.name = .str name → isProperIdentifier name.toList = true)
    (hquiet : (m.fields.get "summary").IsQuiet ∧ QuietType (m.fields.get "type") false false)
    (h : recordProperty m = .ok line) : endings line.1 = 0 ∧ endings line.2 = 0 := by
  obtain ⟨name, hjoinable, h⟩ := bind_eq_ok.1 h
  obtain ⟨summary, hsummary, h⟩ := bind_eq_ok.1 h
  obtain rfl := Except.ok.inj h
  have hquietName := endings_of_identifier (hname name (joinable_eq_ok hjoinable))
  have hdash : endings "-" = 0 := by decide
  refine ⟨endings_recordField hquietName hquiet.2, ?_⟩
  simp [endings_commentLine, hdash, hquietName, endings_freeText hquiet.1 hsummary]

/-- A record type is bound well if it has a name. -/
theorem bindsWhen_typedefText {text : String} (hdeclared : IsDeclared name)
    (hdoc : Documented key cls) (hquiet : QuietPseudo cls) (h : typedefText cls name = .ok text) :
    BindsWhen (name ≠ "") [text] := by
  obtain ⟨summary, hsummary, h⟩ := bind_eq_ok.1 h
  obtain ⟨properties, hproperties, h⟩ := bind_eq_ok.1 h
  obtain rfl := Except.ok.inj h
  have hlines := forall_mem_of_mapM hproperties fun m hm _ hline =>
    endings_recordProperty (hdoc.properties m hm) (hquiet.properties m hm) hline
  have hsummary : ∀ line ∈ summary, endings line = 0 :=
    endings_taggedText (by simp) hquiet.summary hsummary
  have hcomments : ∀ line ∈ properties.map (·.2), endings line = 0 :=
    List.forall_mem_map.2 fun line hline => (hlines line hline).2
  have hfields (fields : List String) (h : ∀ field ∈ fields, endings field = 0) :
      ∀ line ∈ [recordOpening] ++
        (if fields.isEmpty then [] else [Text.join ",\n" fields]) ++ [recordClosing],
        endings line = 0 := by
    cases fields.isEmpty <;>
      simp [endings_recordOpening, endings_recordClosing, endings_fields h]
  have hbody := List.forall_mem_append.2 ⟨List.forall_mem_append.2 ⟨hsummary, hcomments⟩,
    hfields (properties.map (·.1)) (List.forall_mem_map.2 fun line hline => (hlines line hline).1)⟩
  have hbinding : StandsAlone (bindingOf name ++ " = \x7b\x7d;") ∧
      (bindsWell (bindingOf name ++ " = \x7b\x7d;") = true ↔ name ≠ "") := by
    rcases hdeclared with rfl | hname
    · exact ⟨by decide, by decide⟩
    · refine ⟨(standsAlone_bindingOf hname).append (by decide), ?_⟩
      exact iff_of_true (bindsWell_bindingOf hname (endsName_blank "= \x7b\x7d;"))
        (isQualified_ne_empty hname)
  have hblock := (bindsWhen_annotated hbody hbinding.1 (by simp)).join
  simp only [List.append_assoc, List.cons_append, List.nil_append] at hblock ⊢
  exact hblock.congr hbinding.2

/-- The root is bound well if it is no record type, all its properties are constants, and none of
its methods is created. -/
structure BoundAtRoot (cls : Fields) : Prop where
  ordinary : isPseudo cls = false
  properties : ∀ m ∈ (cls.get "properties").members, ∀ name, m.name = .str name →
    isUpper name = true
  methods : (cls.get "__creatable").truthy = true → (cls.get "methods").members = []

theorem bindsWhen_typeBinding (h : IsDeclared declName) :
    BindsWhen True
      (if declName = "" then [] else [bindingOf declName ++ " = function() \x7b\x7d;"]) := by
  split
  · exact bindsWhen_of_reads reads_nil
  next hne =>
    have hname := h.resolve_left hne
    have halone : StandsAlone (bindingOf declName ++ " = function() \x7b\x7d;") :=
      (standsAlone_bindingOf hname).append (by decide)
    exact (bindsWhen_statement halone (by simp)).congr
      (iff_true_intro (bindsWell_bindingOf hname (endsName_blank "= function() \x7b\x7d;")))

theorem bindsWhen_typeLines (hname : isQualified name = true) (hdoc : Documented key cls)
    (hquiet : QuietClass cls) (h : typeLines cls (.ok (unwrapGlobal rootName name)) = .ok lines) :
    BindsWhen (name = rootName → (∀ m ∈ (cls.get "properties").members, ∀ name,
      m.name = .str name → isUpper name = true) ∧ ((cls.get "__creatable").truthy = true →
        (cls.get "methods").members = [])) lines := by
  obtain ⟨comment, hcomment, h⟩ := bind_eq_ok.1 h
  obtain ⟨declared, hdeclared, h⟩ := bind_eq_ok.1 h
  obtain rfl := Except.ok.inj hdeclared
  obtain ⟨⟨properties, dictionary⟩, hproperties, h⟩ := bind_eq_ok.1 h
  obtain ⟨methods, hmethods, h⟩ := bind_eq_ok.1 h
  obtain rfl := Except.ok.inj h
  obtain ⟨hdeclared, hroot⟩ := isDeclared_unwrapGlobal rootName hname
  rw [declaredName_of_isDeclared hdeclared] at hproperties hmethods ⊢
  obtain ⟨hproperties, hdictionary⟩ :=
    bindsWhen_propertiesPart hdeclared hdoc hquiet.properties hproperties
  have hmethods := bindsWhen_methodsPart hdeclared hdoc hquiet.methods hmethods
  rw [hroot] at hproperties hmethods
  have hcomment := bindsWhen_of_reads (reads_typeComment hquiet hcomment)
  have hbinding := bindsWhen_typeBinding hdeclared
  have hempty := bindsWhen_of_reads reads_empty
  refine (((((hcomment.append hbinding).append hproperties).append hmethods).append
    hempty).append hdictionary).congr ?_
  rw [true_and, true_and, and_true, and_true, imp_and]

/-- The statements of a record all bind what they should, unless it is the root's and the root
cannot be bound. -/
theorem bindsWhen_classLines (hdoc : Documented key cls) (hquiet : QuietRecord cls)
    (h : classLines cls key rootName = .ok lines) :
    BindsWhen (recordName cls key = .ok rootName → BoundAtRoot cls) lines := by
  obtain ⟨name, hname⟩ := recordName_of_named hdoc.named key
  have hqualified := hdoc.name name hname
  have hroot : recordName cls key = .ok rootName ↔ name = rootName := by
    rw [hname, Except.ok.injEq]
  rw [classLines, hname] at h
  rw [QuietRecord] at hquiet
  cases hpseudo : isPseudo cls with
  | true =>
      rw [hpseudo] at h hquiet
      obtain ⟨unwrapped, hunwrapped, h⟩ := bind_eq_ok.1 h
      obtain rfl := Except.ok.inj hunwrapped
      obtain ⟨text, htext, h⟩ := bind_eq_ok.1 h
      obtain rfl := Except.ok.inj h
      obtain ⟨hdeclared, hnameless⟩ := isDeclared_unwrapGlobal rootName hqualified
      refine ((bindsWhen_typedefText hdeclared hdoc hquiet htext).append
        (bindsWhen_of_reads reads_empty)).congr ?_
      rw [and_true, Ne, hnameless, hroot]
      refine forall_congr' fun _ => ⟨False.elim, fun hbound => ?_⟩
      exact absurd (hpseudo.symm.trans hbound.ordinary) (by decide)
  | false =>
      rw [hpseudo] at h hquiet
      refine (bindsWhen_typeLines hqualified hdoc hquiet h).congr ?_
      rw [hroot]
      exact forall_congr' fun _ => ⟨fun hbound => ⟨hpseudo, hbound.1, hbound.2⟩,
        fun hbound => ⟨hbound.properties, hbound.methods⟩⟩

/-! ### Files -/

section Files

variable {apis : Fields}

theorem reads_headerLines : Reads headerLines [] := by
  have hbody : ∀ line ∈ [" * @fileoverview Generated externs.  DO NOT EDIT!", " * @externs"],
      endings line = 0 := by decide
  exact (reads_comment hbody).append reads_empty

theorem bindsWhen_entryLines
    (hdocs : ∀ cls, apis.get? key = some (.obj cls) → Documented key cls ∧ QuietRecord cls)
    (h : entryLines apis rootName key = .ok lines) :
    BindsWhen (∀ cls, apis.get? key = some (.obj cls) → recordName cls key = .ok rootName →
      BoundAtRoot cls) lines := by
  rw [entryLines, Fields.get] at h
  cases hentry : apis.get? key with
  | none =>
      rw [hentry] at h
      obtain rfl := Except.ok.inj h
      exact (bindsWhen_of_reads reads_nil).congr (by simp)
  | some v =>
      rw [hentry] at h
      cases v with
      | obj cls =>
          obtain ⟨hdoc, hquiet⟩ := hdocs cls hentry
          exact (bindsWhen_classLines hdoc hquiet h).congr (by simp)
      | _ =>
          obtain rfl := Except.ok.inj h
          exact (bindsWhen_of_reads reads_nil).congr (by simp)

theorem succeeds_recordLines
    (hdocs : ∀ key cls, apis.get? key = some (.obj cls) → Documented key cls) (rootName : String) :
    Succeeds (recordLines apis rootName) := by
  refine succeeds_map.2 (succeeds_mapM.2 fun key _ => ?_)
  rw [entryLines, Fields.get]
  cases hentry : apis.get? key with
  | none => exact succeeds_ok _
  | some v =>
      cases v with
      | obj cls =>
          have hdoc := hdocs key cls hentry
          exact (succeeds_classLines hdoc.named key rootName).2 hdoc.annotatable
      | _ => exact succeeds_ok _

/-- A description of records as they should be, none of which ends a comment early, has externs,
and each statement in them binds what it should: a variable a single identifier, anything else a
dotted path. The one exception is the root, which has to be bound without a name. -/
theorem statements_bind_iff
    (hdocs : ∀ key cls, apis.get? key = some (.obj cls) → Documented key cls)
    (hquiet : ∀ key cls, apis.get? key = some (.obj cls) → QuietRecord cls) (rootName : String) :
    ∃ text, (generate (.obj apis) rootName).outcome = .ok text ∧
      ((∀ line ∈ statementLines text, bindsWell line = true) ↔
        ∀ key cls, apis.get? key = some (.obj cls) → recordName cls key = .ok rootName →
          BoundAtRoot cls) := by
  obtain ⟨lines, hlines⟩ := succeeds_recordLines hdocs rootName
  obtain ⟨blocks, hblocks, rfl⟩ := map_eq_ok.1 hlines
  have hrecords : BindsWhen _ (blocks.flatMap id) := bindsWhen_mapM hblocks fun key _ _ hentry =>
    bindsWhen_entryLines (fun cls hcls => ⟨hdocs key cls hcls, hquiet key cls hcls⟩) hentry
  have hheader : BindsWhen True headerLines := bindsWhen_of_reads reads_headerLines
  have hfooter : BindsWhen True [footer] :=
    (bindsWhen_statement (by decide) (by decide)).congr (iff_true_intro (by decide))
  obtain ⟨statements, hreads, hiff⟩ := (hheader.append hrecords).append hfooter
  rw [List.flatMap_id] at hreads
  refine ⟨_, by rw [outcome_generate, bodyLines, hlines]; rfl, ?_⟩
  rw [hreads.statementLines, hiff, true_and, and_true]
  constructor
  · intro h key cls hcls
    exact h key (Text.mem_sortDistinct.2 (mem_keys_of_get? hcls)) cls hcls
  · exact fun h key _ => h key

end Files

/-- A record with a property and a method that takes a number. -/
def described (name property method : String) : Fields :=
  [("name", .str name), ("summary", .str "s"),
    ("properties", .arr [.obj [("name", .str property), ("type", .str "Number")]]),
    ("methods", .arr [.obj [("name", .str method),
      ("parameters", .arr [.obj [("name", .str "x"), ("type", .str "Number")]])]])]

theorem documented_described {name property method : String} (key : String)
    (hname : isQualified name = true) (hproperty : isProperIdentifier property.toList = true)
    (hmethod : isProperIdentifier method.toList = true) :
    Documented key (described name property method) := by
  have hnonempty := isQualified_ne_empty hname
  have hproperties := isQualified_ne_empty (isQualified_of_identifier hproperty)
  have hmethods := isQualified_ne_empty (isQualified_of_identifier hmethod)
  refine ⟨?_, ?_, ?_, ?_, ?_, ?_⟩
  · simp [described, Json.NamedByText, Json.Throughout, Json.ThroughoutItems,
        Json.ThroughoutValues, Fields.NamedByText, hnonempty, hproperties, hmethods]
  · have hclass : isPseudo (described name property method) = false := rfl
    rw [AnnotatableRecord, hclass]
    refine ⟨⟨?_, ?_⟩, ?_, ?_, ?_, ?_⟩
    all_goals simp [described, Fields.get, Json.IsFreeText, Json.IsVersions, Json.IsText,
      Json.truthy, Json.members, Json.entries, Json.named?, annotatable_iff,
      annotatableMethod_iff, hproperties, hmethods]
  · intro own hown
    have htruthy : ((described name property method).get "name").truthy = true := by
      simp [described, Fields.get, Json.truthy, hnonempty]
    rw [recordName, htruthy] at hown
    obtain rfl := Except.ok.inj hown
    exact hname
  · simp [described, Fields.get, Json.members, Json.entries, Json.named?, Json.truthy,
      hproperties, hproperty]
  · simp [described, Fields.get, Json.members, Json.entries, Json.named?, Json.truthy,
      hmethods, hmethod]
  · have hparameter : StandsAlone "x" := by decide
    simp [described, Fields.get, Json.members, Json.entries, Json.named?, Json.truthy,
      hmethods, hparameter]

theorem quiet_described {name property method : String} (hproperties : property ≠ "")
    (hmethods : method ≠ "") : QuietRecord (described name property method) := by
  have hclass : isPseudo (described name property method) = false := rfl
  have htype : endings (TypeText.Closure.annotation (.str "Number") false false) = 0 := by
    decide +kernel
  have hsummary : endings "s" = 0 := by decide
  rw [QuietRecord, hclass]
  refine ⟨⟨?_, ?_⟩, ?_, ?_, ?_, ?_⟩
  all_goals simp [described, Fields.get, Json.IsQuiet, Json.IsQuietVersions, Json.asSince,
    Json.members, Json.entries, Json.named?, Json.truthy, quietProperty_iff, quietDocument_iff,
    quietMethod_iff, quietParameter_iff, firstReturn?, QuietType, htype, hsummary, hproperties,
    hmethods]

/-- A constant and a function of the root, and a type with members. -/
def openRecords : Fields :=
  [("A.B", .obj (described "A.B" "width" "f")), ("Global", .obj (described "Global" "MAX" "f"))]

theorem statements_bind_iff_openRecords :
    (∀ key cls, openRecords.get? key = some (.obj cls) →
      Documented key cls ∧ QuietRecord cls) ∧
      ∃ text, (generate (.obj openRecords) "Global").outcome = .ok text ∧
        ∀ line ∈ statementLines text, bindsWell line = true := by
  have hentry (key : String) (cls : Fields) (h : openRecords.get? key = some (.obj cls)) :
      cls = described "A.B" "width" "f" ∨ cls = described "Global" "MAX" "f" := by
    have hmem := Fields.mem_of_get? h
    simp only [openRecords, List.mem_cons, List.not_mem_nil, Prod.mk.injEq, Json.obj.injEq,
      or_false] at hmem
    exact hmem.imp And.right And.right
  have hdocs (key : String) (cls : Fields) (h : openRecords.get? key = some (.obj cls)) :
      Documented key cls ∧ QuietRecord cls := by
    rcases hentry key cls h with rfl | rfl
    · exact ⟨documented_described key (by decide) (by decide) (by decide),
        quiet_described (by decide) (by decide)⟩
    · exact ⟨documented_described key (by decide) (by decide) (by decide),
        quiet_described (by decide) (by decide)⟩
  have hroot : BoundAtRoot (described "Global" "MAX" "f") := by
    have hupper : isUpper "MAX" = true := by decide +kernel
    constructor
    · rfl
    · simp [described, Fields.get, Json.members, Json.entries, Json.named?, Json.truthy, hupper]
    · simp [described, Fields.get, Json.truthy]
  obtain ⟨text, htext, hiff⟩ := statements_bind_iff (fun key cls h => (hdocs key cls h).1)
    (fun key cls h => (hdocs key cls h).2) "Global"
  refine ⟨hdocs, text, htext, hiff.2 fun key cls h hname => ?_⟩
  rcases hentry key cls h with rfl | rfl
  · exact absurd (Except.ok.inj hname) (by decide)
  · exact hroot

/-- A property of the root that is no constant is bound to no identifier, and what follows the end
of a comment in a summary is taken for a statement. -/
theorem statements_astray_describedRoot :
    (∃ text, (generate (.obj [("Global", .obj (described "Global" "width" "f"))])
        "Global").outcome = .ok text ∧
      statementLines text = ["var prototype.width;", "var f = function(x) \x7b\x7d;",
        "var _Dictionary_Global;", "var Ti = Titanium;"] ∧
      bindsWell "var prototype.width;" = false) ∧
    ∃ text, (generate (.obj [("A", .obj [("name", .str "A"), ("summary", .str "a */ b")])])
        "Global").outcome = .ok text ∧
      statementLines text = [" b", " */", "var A = function() \x7b\x7d;", "var Ti = Titanium;"] ∧
      bindsWell " b" = false := by
  refine ⟨⟨Text.join "\n" (headerLines ++ ["/**", " * s", " */", "", "/**", " * ", "",
      " * @type \x7bNumber\x7d width", " */", "var prototype.width;", "", "", "/**", " * ", "",
      " * @param \x7bNumber\x7d x ", " */", "var f = function(x) \x7b\x7d;", "", "", "/**",
      " * @typedef \x7b\x7b", " *   width: Number", " * \x7d\x7d", " */",
      "var _Dictionary_Global;", "", footer]), by decide +kernel, ?_, by decide⟩,
    Text.join "\n" (headerLines ++ ["/**", " * a */ b", " */", "var A = function() \x7b\x7d;", "",
      footer]), by decide +kernel, ?_, by decide⟩
  · rw [statementLines, Text.pieces_join rfl (by decide) (by decide)]
    decide +kernel
  · rw [statementLines, Text.pieces_join rfl (by decide) (by decide)]
    decide +kernel

end ApiTypings.Externs
