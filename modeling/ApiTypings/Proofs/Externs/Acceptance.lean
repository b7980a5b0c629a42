import ApiTypings.Proofs.Declaration.Outcome
import ApiTypings.Proofs.Externs.Order
import ApiTypings.Proofs.Success

/-!
Which descriptions have externs.

Declarations are made from records, and reading a record turns every value into a text or drops it.
Annotations are written from the documents themselves: free text is taken apart, versions are gone
through, and the type that is extended is put in braces, so each of these has to be what it should
be, or absent. Where names are texts, nothing else of a document decides on whether there are
externs for it.
-/

namespace ApiTypings

/-- A text, or a value that counts as absent. -/
def Json.IsFreeText (v : Json) : Prop := v.truthy = true → v.IsText

/-- Versions by platform, or nothing. -/
def Json.IsVersions (v : Json) : Prop := v = .null ∨ ∃ fields, v = .obj fields

namespace Externs

open Success

variable {v : Json} {cls : Fields} {key rootName name declName owner : String} {m : Named}

/-! ### Values -/

theorem succeeds_joinable : Succeeds (joinable v) ↔ v.IsText := by
  cases v with
  | str s => exact iff_of_true (succeeds_ok s) ⟨s, rfl⟩
  | _ => exact iff_of_false (not_succeeds_error _) (by simp [Json.IsText])

theorem succeeds_freeText : Succeeds (freeText v) ↔ v.IsFreeText := by
  unfold freeText Json.IsFreeText
  split
  next h =>
    rw [forall_prop_of_true h]
    cases v with
    | str s => exact iff_of_true (succeeds_ok _) ⟨s, rfl⟩
    | _ => exact iff_of_false (not_succeeds_error _) (by simp [Json.IsText])
  next h => exact iff_of_true (succeeds_ok _) fun htruthy => absurd htruthy h

theorem succeeds_sinceLine : Succeeds (sinceLine v) ↔ v.IsVersions := by
  cases v with
  | null => exact iff_of_true (succeeds_ok _) (.inl rfl)
  | obj fields => exact iff_of_true (succeeds_ok _) (.inr ⟨fields, rfl⟩)
  | _ => exact iff_of_false (not_succeeds_error _) (by simp [Json.IsVersions])

theorem succeeds_taggedText {tags : List String} :
    Succeeds (taggedText tags v) ↔ v.IsFreeText := by
  rw [taggedText]
  split
  · exact succeeds_map.trans succeeds_freeText
  next h => exact iff_of_true (succeeds_ok _) fun htruthy => absurd htruthy h

/-! ### Members -/

/-- A document whose annotation can be written. -/
@[mk_iff]
structure Annotatable (doc : Fields) : Prop where
  summary : (doc.get "summary").IsFreeText
  since : (doc.get "since").IsVersions

/-- A method whose annotation, with its parameters, can be written. -/
@[mk_iff]
structure AnnotatableMethod (doc : Fields) : Prop extends Annotatable doc where
  parameters : ∀ p ∈ (doc.get "parameters").members, (p.fields.get "summary").IsFreeText

theorem succeeds_recordProperty (h : m.name.IsText) :
    Succeeds (recordProperty m) ↔ (m.fields.get "summary").IsFreeText := by
  have hsteps : Succeeds (recordProperty m) ↔
      Succeeds (joinable m.name) ∧ Succeeds (freeText (m.fields.get "summary")) ∧ True :=
    succeeds_bind fun _ => succeeds_bind fun _ => iff_true_intro (succeeds_ok _)
  rw [hsteps, succeeds_joinable, succeeds_freeText, and_true, and_iff_right h]

theorem succeeds_bindProperty (h : m.name.IsText) :
    Succeeds (bindProperty owner m) ↔ Annotatable m.fields := by
  have hsteps : Succeeds (bindProperty owner m) ↔
      Succeeds (freeText (m.fields.get "summary")) ∧ Succeeds (sinceLine (m.fields.get "since")) ∧
        Succeeds (joinable m.name) ∧ True := by
    refine succeeds_bind fun _ => succeeds_bind fun _ => succeeds_bind fun name => ?_
    refine iff_true_intro ?_
    dsimp only
    split
    · exact succeeds_ok _
    · exact succeeds_ok _
  rw [hsteps, succeeds_freeText, succeeds_sinceLine, succeeds_joinable, and_true, and_iff_left h]
  exact ⟨fun h => ⟨h.1, h.2⟩, fun h => ⟨h.summary, h.since⟩⟩

theorem succeeds_parameterLine (h : m.name.IsText) :
    Succeeds (parameterLine m) ↔ (m.fields.get "summary").IsFreeText := by
  obtain ⟨renamed, hrenamed, htext⟩ := Declaration.parameterName_of_isText h
  have hsteps : Succeeds (parameterLine m) ↔
      Succeeds (freeText (m.fields.get "summary")) ∧ Succeeds (joinable renamed) ∧ True := by
    rw [parameterLine, hrenamed]
    exact succeeds_bind fun _ => succeeds_bind fun _ => iff_true_intro (succeeds_ok _)
  rw [hsteps, succeeds_freeText, succeeds_joinable, and_true, and_iff_left htext]

/-- What is named by text, is a member of what a document holds under a key. -/
theorem members_isText (h : (Json.obj cls).NamedByText) (key : String) :
    ∀ m ∈ (cls.get key).members, m.name.IsText ∧ (Json.obj m.fields).NamedByText :=
  fun _ hm => Json.members_namedByText (Fields.get_namedByText h key) hm

theorem succeeds_bindMethod (h : m.name.IsText) (hfields : (Json.obj m.fields).NamedByText) :
    Succeeds (bindMethod owner m) ↔ AnnotatableMethod m.fields := by
  have hsteps : Succeeds (bindMethod owner m) ↔
      Succeeds (freeText (m.fields.get "summary")) ∧ Succeeds (sinceLine (m.fields.get "since")) ∧
        Succeeds (joinable m.name) ∧
        Succeeds ((m.fields.get "parameters").members.mapM parameterLine) ∧ True :=
    succeeds_bind fun _ => succeeds_bind fun _ => succeeds_bind fun _ => succeeds_bind fun _ =>
      iff_true_intro (succeeds_ok _)
  have hparameters : Succeeds ((m.fields.get "parameters").members.mapM parameterLine) ↔
      ∀ p ∈ (m.fields.get "parameters").members, (p.fields.get "summary").IsFreeText :=
    succeeds_mapM.trans (forall₂_congr fun p hp =>
      succeeds_parameterLine (members_isText hfields "parameters" p hp).1)
  rw [hsteps, succeeds_freeText, succeeds_sinceLine, succeeds_joinable, hparameters, and_true,
    and_iff_right h]
  exact ⟨fun h => ⟨⟨h.1, h.2.1⟩, h.2.2⟩, fun h => ⟨h.summary, h.since, h.parameters⟩⟩

/-! ### Records -/

/-- A document of a pseudo type that can be written as a record type. -/
structure AnnotatablePseudo (cls : Fields) : Prop where
  summary : (cls.get "summary").IsFreeText
  properties : ∀ m ∈ (cls.get "properties").members, (m.fields.get "summary").IsFreeText

/-- A document of any other type whose annotations can be written. -/
structure AnnotatableType (cls : Fields) : Prop extends Annotatable cls where
  extended : (cls.get "extends").IsFreeText
  description : (cls.get "description").IsFreeText
  properties : ∀ m ∈ (cls.get "properties").members, Annotatable m.fields
  methods : ∀ m ∈ (cls.get "methods").members, AnnotatableMethod m.fields

/-- A record whose annotations can be written. -/
def AnnotatableRecord (cls : Fields) : Prop :=
  if isPseudo cls then AnnotatablePseudo cls else AnnotatableType cls

theorem succeeds_typedefText (h : (Json.obj cls).NamedByText) :
    Succeeds (typedefText cls name) ↔ AnnotatablePseudo cls := by
  have hsteps : Succeeds (typedefText cls name) ↔
      Succeeds (taggedText [] (cls.get "summary")) ∧
        Succeeds ((cls.get "properties").members.mapM recordProperty) ∧ True :=
    succeeds_bind fun _ => succeeds_bind fun _ => iff_true_intro (succeeds_ok _)
  have hproperties : Succeeds ((cls.get "properties").members.mapM recordProperty) ↔
      ∀ m ∈ (cls.get "properties").members, (m.fields.get "summary").IsFreeText :=
    succeeds_mapM.trans (forall₂_congr fun m hm =>
      succeeds_recordProperty (members_isText h "properties" m hm).1)
  rw [hsteps, succeeds_taggedText, hproperties, and_true]
  exact ⟨fun h => ⟨h.1, h.2⟩, fun h => ⟨h.summary, h.properties⟩⟩

section Comment

variable {rest : List String → Except Fault (List String)} {P : Prop}

/-- The line of the type that is extended, and whatever follows it. -/
theorem succeeds_extended (h : ∀ lines, Succeeds (rest lines) ↔ P) :
    Succeeds (if (cls.get "extends").truthy then
        ((joinable (cls.get "extends")).map fun s => [commentLine ["@extends", braced s]]) >>= rest
      else .ok [] >>= rest) ↔ (cls.get "extends").IsFreeText ∧ P := by
  rw [Json.IsFreeText]
  split
  next htruthy =>
    rw [succeeds_bind h, succeeds_map, succeeds_joinable, forall_prop_of_true htruthy]
  next hnot => exact (h []).trans (and_iff_right fun htruthy => absurd htruthy hnot).symm

/-- The line of the versions, and whatever follows it. -/
theorem succeeds_since (h : ∀ lines, Succeeds (rest lines)) :
    Succeeds (match cls.get "since" with
      | .null => .ok [] >>= rest
      | v => (sinceLine v).map ([·]) >>= rest) ↔ (cls.get "since").IsVersions := by
  rw [← succeeds_sinceLine]
  cases cls.get "since" with
  | null => exact iff_of_true (h []) (succeeds_ok _)
  | _ =>
    refine (succeeds_bind fun lines => iff_true_intro (h lines)).trans ?_
    rw [and_true, succeeds_map]

theorem succeeds_typeComment :
    Succeeds (typeComment cls) ↔
      Annotatable cls ∧ (cls.get "extends").IsFreeText ∧ (cls.get "description").IsFreeText := by
  have hsteps : Succeeds (typeComment cls) ↔
      Succeeds (taggedText [] (cls.get "summary")) ∧ (cls.get "extends").IsFreeText ∧
        Succeeds (taggedText ["@description"] (cls.get "description")) ∧
        (cls.get "since").IsVersions :=
    succeeds_bind fun _ => succeeds_extended fun _ => succeeds_bind fun _ =>
      succeeds_since fun _ => succeeds_ok _
  rw [hsteps, succeeds_taggedText, succeeds_taggedText]
  exact ⟨fun h => ⟨⟨h.1, h.2.2.2⟩, h.2.1, h.2.2.1⟩,
    fun h => ⟨h.1.summary, h.2.1, h.2.2, h.1.since⟩⟩

end Comment

/-- A dictionary takes its name from the document if the type is declared by none. -/
theorem succeeds_dictionaryLines (h : (Json.obj cls).NamedByText) (writable : List String) :
    Succeeds (dictionaryLines cls declName writable) := by
  have howner : Succeeds (dictionaryOwner cls declName) := by
    unfold dictionaryOwner
    split
    · exact succeeds_ok _
    · cases hname : cls.get? "name" with
      | none => exact succeeds_ok _
      | some v =>
        obtain ⟨s, -, rfl⟩ := h.1 v (Fields.mem_of_get? hname)
        exact succeeds_ok _
  unfold dictionaryLines
  split
  · exact succeeds_ok _
  · exact succeeds_map.2 howner

theorem succeeds_propertiesPart (h : (Json.obj cls).NamedByText) :
    Succeeds (propertiesPart cls declName) ↔
      ∀ m ∈ (cls.get "properties").members, Annotatable m.fields := by
  have htext : Succeeds (propertiesText cls declName) ↔
      ∀ m ∈ (cls.get "properties").members, Annotatable m.fields := by
    have hsteps : Succeeds (propertiesText cls declName) ↔
        Succeeds ((cls.get "properties").members.mapM (bindProperty (ownerOf declName))) ∧ True :=
      succeeds_bind fun _ => iff_true_intro <|
        (succeeds_bind fun _ => iff_true_intro (succeeds_ok _)).2
          ⟨succeeds_dictionaryLines h _, trivial⟩
    rw [hsteps, and_true]
    exact succeeds_mapM.trans (forall₂_congr fun m hm =>
      succeeds_bindProperty (members_isText h "properties" m hm).1)
  rw [← htext, propertiesPart]
  cases hproperties : cls.get "properties" with
  | null =>
    refine iff_of_true (succeeds_ok _) (htext.2 ?_)
    rw [hproperties]
    exact fun m hm => absurd hm List.not_mem_nil
  | _ => exact succeeds_map

theorem succeeds_methodsPart (h : (Json.obj cls).NamedByText) :
    Succeeds (methodsPart cls declName) ↔
      ∀ m ∈ (cls.get "methods").members, AnnotatableMethod m.fields := by
  have htext : Succeeds (methodsText cls declName) ↔
      ∀ m ∈ (cls.get "methods").members, AnnotatableMethod m.fields := by
    refine (succeeds_bind fun _ => iff_true_intro (succeeds_ok _)).trans ?_
    rw [and_true]
    exact succeeds_mapM.trans (forall₂_congr fun m hm =>
      have hm := members_isText h "methods" m hm
      succeeds_bindMethod hm.1 hm.2)
  rw [← htext, methodsPart]
  cases hmethods : cls.get "methods" with
  | null =>
    refine iff_of_true (succeeds_ok _) (htext.2 ?_)
    rw [hmethods]
    exact fun m hm => absurd hm List.not_mem_nil
  | _ => exact succeeds_map

theorem succeeds_typeLines (h : (Json.obj cls).NamedByText) :
    Succeeds (typeLines cls (.ok name)) ↔ AnnotatableType cls := by
  have hsteps : Succeeds (typeLines cls (.ok name)) ↔
      Succeeds (typeComment cls) ∧ Succeeds (propertiesPart cls (declaredName name)) ∧
        Succeeds (methodsPart cls (declaredName name)) ∧ True :=
    succeeds_bind fun _ => succeeds_bind fun _ => succeeds_bind fun _ =>
      iff_true_intro (succeeds_ok _)
  rw [hsteps, succeeds_typeComment, succeeds_propertiesPart h, succeeds_methodsPart h, and_true]
  exact ⟨fun ⟨⟨hcls, hextended, hdescription⟩, hproperties, hmethods⟩ =>
      ⟨hcls, hextended, hdescription, hproperties, hmethods⟩,
    fun h => ⟨⟨h.toAnnotatable, h.extended, h.description⟩, h.properties, h.methods⟩⟩

theorem recordName_of_named (h : (Json.obj cls).NamedByText) (key : String) :
    ∃ name, recordName cls key = .ok name := by
  unfold recordName Fields.get
  cases hname : cls.get? "name" with
  | none => exact ⟨key, rfl⟩
  | some v =>
    obtain ⟨s, hs, rfl⟩ := h.1 v (Fields.mem_of_get? hname)
    exact ⟨s, by simp [Json.truthy, hs]⟩

theorem succeeds_classLines (h : (Json.obj cls).NamedByText) (key rootName : String) :
    Succeeds (classLines cls key rootName) ↔ AnnotatableRecord cls := by
  obtain ⟨name, hname⟩ := recordName_of_named h key
  rw [classLines, hname, AnnotatableRecord]
  cases isPseudo cls with
  | true =>
    refine (succeeds_bind fun _ => iff_true_intro (succeeds_ok _)).trans ?_
    rw [and_true]
    exact succeeds_typedefText h
  | false => exact succeeds_typeLines h

/-! ### Descriptions -/

theorem succeeds_entryLines {apis : Fields}
    (hnames : ∀ key cls, (key, .obj cls) ∈ apis → (Json.obj cls).NamedByText)
    (rootName key : String) :
    Succeeds (entryLines apis rootName key) ↔
      ∀ cls, apis.get? key = some (.obj cls) → AnnotatableRecord cls := by
  rw [entryLines, Fields.get]
  cases hentry : apis.get? key with
  | none => exact iff_of_true (succeeds_ok _) (by simp)
  | some v =>
    cases v with
    | obj cls =>
      have hcls := hnames key cls (Fields.mem_of_get? hentry)
      simpa using succeeds_classLines hcls key rootName
    | _ => exact iff_of_true (succeeds_ok _) (by simp)

theorem mem_keys_of_get? {apis : Fields} (h : apis.get? key = some v) : key ∈ apis.keys :=
  List.mem_map.2 ⟨_, Fields.mem_of_get? h, rfl⟩

/-- A description in which names are texts has externs exactly if the annotations of each of its
records can be written. -/
theorem generate_text_iff {apis : Fields}
    (hnames : ∀ key cls, (key, .obj cls) ∈ apis → (Json.obj cls).NamedByText)
    (rootName : String) :
    (∃ text, (generate (.obj apis) rootName).outcome = .ok text) ↔
      ∀ key cls, apis.get? key = some (.obj cls) → AnnotatableRecord cls := by
  have hlines : Succeeds (recordLines apis rootName) ↔
      ∀ key ∈ apis.keys, ∀ cls, apis.get? key = some (.obj cls) → AnnotatableRecord cls := by
    rw [recordLines, succeeds_map, succeeds_mapM]
    simp only [Text.mem_sortDistinct, succeeds_entryLines hnames]
  rw [outcome_generate]
  refine (succeeds_map.trans hlines).trans ⟨fun h key cls hcls => ?_, fun h key _ => h key⟩
  exact h key (mem_keys_of_get? hcls) cls hcls

/-- A record with little as it should be: a summary that counts as absent, exclusions and a type
that are numbers, parameters that are a text, and an entry that is no member. -/
def untypedRecord : Fields :=
  [("name", .str "A"), ("summary", .int 0), ("excludes", .int 5),
    ("properties", .arr [.bool true, .obj [("name", .str "p"), ("type", .int 3)]]),
    ("methods", .obj [("0", .obj [("name", .str "f"), ("parameters", .str "x")])])]

/-- A pseudo type, of which the type that it extends and its versions are not read. -/
def untypedPseudo : Fields :=
  [("name", .str "B"), ("__subtype", .str "pseudo"), ("extends", .int 3), ("since", .arr [])]

def untypedRecords : Fields := [("A", .obj untypedRecord), ("B", .obj untypedPseudo)]

theorem generate_text_iff_untypedRecords :
    (∀ key cls, (key, .obj cls) ∈ untypedRecords → (Json.obj cls).NamedByText) ∧
      (∀ key cls, untypedRecords.get? key = some (.obj cls) → AnnotatableRecord cls) ∧
      ∃ text, (generate (.obj untypedRecords) "Global").outcome = .ok text := by
  have hnames (key : String) (cls : Fields)
      (h : (key, .obj cls) ∈ untypedRecords) : (Json.obj cls).NamedByText := by
    obtain ⟨-, rfl⟩ | ⟨-, rfl⟩ : (key = "A" ∧ cls = untypedRecord) ∨
        (key = "B" ∧ cls = untypedPseudo) := by simpa [untypedRecords] using h
    · simp [untypedRecord, Json.NamedByText, Json.Throughout, Json.ThroughoutItems,
        Json.ThroughoutValues, Fields.NamedByText]
    · simp [untypedPseudo, Json.NamedByText, Json.Throughout, Json.ThroughoutItems,
        Json.ThroughoutValues, Fields.NamedByText]
  have hrecord : AnnotatableRecord untypedRecord := by
    rw [AnnotatableRecord, if_neg (by decide)]
    refine ⟨⟨?_, ?_⟩, ?_, ?_, ?_, ?_⟩
    all_goals simp [untypedRecord, Fields.get, Fields.values, Json.IsFreeText, Json.IsVersions,
      Json.truthy, Json.members, Json.entries, Json.named?, annotatable_iff,
      annotatableMethod_iff]
  have hpseudo : AnnotatableRecord untypedPseudo := by
    rw [AnnotatableRecord, if_pos (by decide)]
    constructor
    all_goals simp [untypedPseudo, Fields.get, Json.IsFreeText, Json.truthy, Json.members,
      Json.entries]
  have hrecords (key : String) (cls : Fields)
      (h : untypedRecords.get? key = some (.obj cls)) : AnnotatableRecord cls := by
    rw [untypedRecords, Fields.get?_cons, Fields.get?_cons, Fields.get?_nil] at h
    split at h
    · obtain rfl := Json.obj.inj (Option.some.inj h)
      exact hrecord
    · split at h
      · obtain rfl := Json.obj.inj (Option.some.inj h)
        exact hpseudo
      · cases h
  exact ⟨hnames, hrecords, (generate_text_iff hnames "Global").2 hrecords⟩

/-- A record with one field beside its name. -/
def taggedRecords (field : String) (v : Json) : Fields :=
  [("A", .obj [("name", .str "A"), (field, v)])]

/-- The tree of such a record. -/
def taggedTree (field : String) (v : Json) : Tree :=
  ⟨"Global", "", [Node.blank [] false, ⟨["A"], [("name", .str "A"), (field, v)], false, none⟩], []⟩

/-- That a description has declarations, while its externs end in a fault. -/
def OnlyDeclared (apis : Fields) (fault : Fault) : Prop :=
  (∃ text, (Declaration.generate .standard (.obj apis)).outcome = .ok text) ∧
    (generate (.obj apis) "Global").outcome = .error fault

theorem onlyDeclared_taggedRecords {field : String} {fault : Fault} (hname : field ≠ "name")
    (hexcludes : field ≠ "excludes") (hv : v.NamedByText)
    (hbuild : (Tree.build (.obj (taggedRecords field v)) "Global").outcome =
      .ok (taggedTree field v))
    (hok : (Exclusion.resolveAll (taggedTree field v)).outcome = .ok ())
    (hlines : classLines [("name", .str "A"), (field, v)] "A" "Global" = .error fault) :
    OnlyDeclared (taggedRecords field v) fault := by
  have hwell : Declaration.WellNamed (taggedRecords field v) := by
    constructor
    · simpa [taggedRecords, Json.NamedByText, Json.Throughout, Json.ThroughoutValues,
        Fields.NamedByText, hname.symm] using hv
    · simp [taggedRecords, Declaration.ListsExclusions, hexcludes.symm]
  have hkeys : Text.sortDistinct (taggedRecords field v).keys = ["A"] :=
    List.perm_singleton.1 (Text.sortDistinct_perm (List.nodup_singleton "A"))
  have hentry : entryLines (taggedRecords field v) "Global" "A" = .error fault := hlines
  refine ⟨Declaration.text_of_resolveAll hwell hbuild hok, ?_⟩
  rw [outcome_generate, bodyLines, recordLines, hkeys, List.mapM_cons, hentry]
  rfl

/-- A summary that is a number, versions that are a list and an extended type that is a number each
end the externs of a description that has declarations. -/
theorem onlyDeclared_oddFields :
    OnlyDeclared (taggedRecords "summary" (.int 5)) .notText ∧
      OnlyDeclared (taggedRecords "since" (.arr [])) .notAnObject ∧
      OnlyDeclared (taggedRecords "extends" (.int 3)) .notJoinable := by
  refine ⟨onlyDeclared_taggedRecords (by decide) (by decide) trivial rfl ?_ rfl,
    onlyDeclared_taggedRecords (by decide) (by decide) trivial rfl ?_ rfl,
    onlyDeclared_taggedRecords (by decide) (by decide) trivial rfl ?_ rfl⟩
  · rw [show Exclusion.resolveAll (taggedTree "summary" (.int 5)) = _ by cbv]
  · rw [show Exclusion.resolveAll (taggedTree "since" (.arr [])) = _ by cbv]
  · rw [show Exclusion.resolveAll (taggedTree "extends" (.int 3)) = _ by cbv]

end Externs

end ApiTypings
