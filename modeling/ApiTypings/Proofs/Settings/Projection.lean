import ApiTypings.Proofs.Settings.Strictness

/-!
Checked settings need no further check.

Settings are checked where they are read and once more where they are used, so the second check has
to be silent. What a check leaves is in shape: its texts are trimmed and are empty only where they
may be, its root is a single name, and no further field has the name of one that settings have.
Settings in shape, written as an object, are taken by either check as they are.
-/

namespace ApiTypings.Settings

open Checked

/-! ### Single fields -/

/-- A text that a check of a text leaves as it is. -/
structure Settled (mayBeEmpty : Bool) (s : String) : Prop where
  trimmed : Text.trim s = s
  full : s = "" → mayBeEmpty = true

theorem Settled.ne_empty {s : String} (h : Settled false s) : s ≠ "" :=
  fun hs => Bool.false_ne_true (h.full hs)

theorem checkText_of_settled {mayBeEmpty : Bool} {s : String} (h : Settled mayBeEmpty s)
    (field standard : String) : checkText field mayBeEmpty standard (.str s) = pure s := by
  have hkept : ¬(s = "" ∧ (!mayBeEmpty) = true) := by
    rintro ⟨hs, hfull⟩
    simp [h.full hs] at hfull
  simp only [checkText, h.trimmed, if_neg hkept]

/-- A check of a text leaves the standard one or a trimmed one that may stand there. -/
theorem settled_checkText {mayBeEmpty : Bool} {standard : String} (h : Settled mayBeEmpty standard)
    (field : String) (v : Json) : Settled mayBeEmpty (checkText field mayBeEmpty standard v).value := by
  cases v with
  | str s =>
    simp only [checkText, value_pure]
    split
    · exact h
    · next hkept =>
      refine ⟨Text.trim_trim s, fun hs => ?_⟩
      cases mayBeEmpty with
      | true => rfl
      | false => exact absurd ⟨hs, rfl⟩ hkept
  | _ => exact h

theorem checkSwitch_bool (strictness : Strictness) (field : String) (standard b : Bool) :
    checkSwitch strictness field standard (.bool b) = pure b := rfl

/-- The name of a format is in lower case. -/
theorem checkFormat_name (f : OutputFormat) : checkFormat f.name = pure f := by
  cases f <;> rfl

theorem checkRoot_of_undotted {name : String} (h : '.' ∉ name.toList) (standard : String) :
    checkRoot standard name = pure name := if_neg h

/-! ### Settings in shape -/

/-- Settings as a check leaves them. -/
structure WellShaped (s : Settings) : Prop where
  inputPath : Settled false s.inputPath
  outputPath : Settled true s.outputPath
  rootName : Settled false s.rootName
  undotted : '.' ∉ s.rootName.toList
  baseEventType : Settled false s.baseEventType
  extra : ∀ f ∈ s.extra, f.1 ∉ fieldNames

/-- The standard input lies in the working directory. Its location starts with the slash of an
absolute one and ends with the name of the file, so no directory lets it be trimmed. -/
theorem settled_standardInput {directory : String} (h : Location.isAbsolute directory = true) :
    Settled false (Location.join directory "api.json") := by
  obtain ⟨rest, hrest⟩ : ∃ rest, directory.toList = '/' :: rest := by
    cases hd : directory.toList with
    | nil => simp [Location.isAbsolute, hd] at h
    | cons c rest => exact ⟨rest, by simpa [Location.isAbsolute, hd] using h⟩
  obtain ⟨between, hjoined⟩ : ∃ between,
      (Location.join directory "api.json").toList = '/' :: between ++ ['n'] := by
    have hrelative : Location.isAbsolute "api.json" = false := by decide
    simp only [Location.join, hrelative, Bool.false_eq_true, if_false]
    split
    · exact ⟨rest ++ "api.jso".toList, by simp [hrest]⟩
    · exact ⟨rest ++ "/api.jso".toList, by simp [hrest]⟩
  refine ⟨Text.trim_of_ends hjoined (by decide) (by decide), fun hempty => ?_⟩
  simp [hempty] at hjoined

theorem wellShaped_standard {directory : String} (h : Location.isAbsolute directory = true) :
    (standard directory).WellShaped := by
  have hempty : Settled true "" := ⟨by decide, fun _ => rfl⟩
  have hroot : Settled false Options.defaultRootName := ⟨by decide, by decide⟩
  have hundotted : '.' ∉ Options.defaultRootName.toList := by decide
  have hevent : Settled false Options.defaultBaseEventType := ⟨by decide, by decide⟩
  exact ⟨settled_standardInput h, hempty, hroot, hundotted, hevent, by simp [standard]⟩

/-- A dotted root is replaced by the standard one, so what is left of a root is in shape. -/
theorem checkRoot_shape {standard name : String} (hs : Settled false standard)
    (hsUndotted : '.' ∉ standard.toList) (hname : Settled false name) :
    Settled false (checkRoot standard name).value ∧
      '.' ∉ (checkRoot standard name).value.toList := by
  unfold checkRoot
  split
  · exact ⟨hs, hsUndotted⟩
  · next hundotted => exact ⟨hname, hundotted⟩

theorem wellShaped_checkFields {standard : Settings} (h : standard.WellShaped)
    (strictness : Strictness) (given : Fields) :
    (checkFields strictness standard given).value.WellShaped := by
  have hroot := checkRoot_shape h.rootName h.undotted
    (settled_checkText h.rootName "root_name" (given.get "root_name"))
  exact {
    inputPath := settled_checkText h.inputPath _ _
    outputPath := settled_checkText h.outputPath _ _
    rootName := hroot.1
    undotted := hroot.2
    baseEventType := settled_checkText h.baseEventType _ _
    extra := fun f hf => of_decide_eq_true (List.mem_filter.1 hf).2 }

theorem wellShaped_check {standard : Settings} (h : standard.WellShaped) (strictness : Strictness)
    (given : Json) : (check strictness standard given).value.WellShaped := by
  cases given with
  | obj given => exact wellShaped_checkFields h strictness given
  | _ => exact h

theorem extraFields_toFields {s : Settings} (h : s.WellShaped) :
    extraFields s.toFields = s.extra := by
  unfold extraFields toFields
  rw [List.filter_append, List.filter_eq_nil_iff.2 ?own, List.filter_eq_self.2 ?extra,
    List.nil_append]
  case own => simp [fieldNames]
  case extra => exact fun f hf => decide_eq_true (h.extra f hf)

/-- The values that are written for the fields that settings have, kind by kind. -/
theorem get_toFields_text (s : Settings) :
    s.toFields.get "input_path" = .str s.inputPath ∧
      s.toFields.get "output_path" = .str s.outputPath ∧
      s.toFields.get "format" = .str s.format.name ∧
      s.toFields.get "root_name" = .str s.rootName ∧
      s.toFields.get "base_event_type" = .str s.baseEventType := by
  simp [toFields, Fields.get]

theorem get_toFields_switch (s : Settings) :
    s.toFields.get "generate_event_types" = .bool s.generateEventTypes ∧
      s.toFields.get "write_inheritance" = .bool s.writeInheritance := by
  simp [toFields, Fields.get]

/-- Settings in shape are what a check of them gives, and nothing is found. -/
theorem check_toFields {s : Settings} (h : s.WellShaped) (strictness : Strictness)
    (standard : Settings) : check strictness standard (.obj s.toFields) = pure s := by
  obtain ⟨hinput, houtput, hformat, hroot, hevent⟩ := get_toFields_text s
  obtain ⟨hevents, hinheritance⟩ := get_toFields_switch s
  have hformatName : Settled false s.format.name := by
    cases s.format <;> exact ⟨by decide, by decide⟩
  simp only [check, checkFields, extraFields_toFields h, hinput, houtput, hformat, hroot, hevent,
    hevents, hinheritance, checkText_of_settled h.inputPath, checkText_of_settled h.outputPath,
    checkText_of_settled hformatName, checkText_of_settled h.rootName,
    checkText_of_settled h.baseEventType, checkSwitch_bool, pure_bind, checkFormat_name,
    checkRoot_of_undotted h.undotted]

/-! ### The second check -/

/-- The kinds of the fields that settings have. -/
def fieldKinds : List (String × String) :=
  [("input_path", "str"), ("output_path", "str"), ("format", "str"),
    ("generate_event_types", "bool"), ("write_inheritance", "bool"), ("root_name", "str"),
    ("base_event_type", "str")]

/-- An object whose own fields say what settings can say. -/
structure InShape (fields : Fields) : Prop where
  kinds : ∀ field ∈ fieldKinds, (fields.get field.1).kindName = field.2
  format : ∃ f ∈ OutputFormat.all, fields.get "format" = .str f.name
  root : ∃ name, fields.get "root_name" = .str name ∧ name ≠ "" ∧ '.' ∉ name.toList

theorem inShape_toFields {s : Settings} (h : s.WellShaped) : InShape s.toFields := by
  obtain ⟨hinput, houtput, hformat, hroot, hevent⟩ := get_toFields_text s
  obtain ⟨hevents, hinheritance⟩ := get_toFields_switch s
  have hknown : s.format ∈ OutputFormat.all := by cases s.format <;> decide
  constructor
  case kinds =>
    simp only [fieldKinds, List.forall_mem_cons, hinput, houtput, hformat, hroot, hevent, hevents,
      hinheritance, Json.kindName]
    simp
  case format => exact ⟨s.format, hknown, hformat⟩
  case root => exact ⟨s.rootName, hroot, h.rootName.ne_empty, h.undotted⟩

/-- Fields that settings do not have are written behind the others, so they are found there. -/
theorem get?_toFields {key : String} (h : key ∉ fieldNames) (s : Settings) :
    s.toFields.get? key = s.extra.get? key := by
  simp only [fieldNames, List.mem_cons, List.not_mem_nil, or_false, not_or] at h
  obtain ⟨hinput, houtput, hformat, hevents, hinheritance, hroot, hbase⟩ := h
  simp [toFields, Ne.symm hinput, Ne.symm houtput, Ne.symm hformat, Ne.symm hevents,
    Ne.symm hinheritance, Ne.symm hroot, Ne.symm hbase]

theorem get?_extraFields {key : String} (h : key ∉ fieldNames) (given : Fields) :
    Fields.get? (extraFields given) key = given.get? key := by
  induction given with
  | nil => rfl
  | cons f rest ih =>
    obtain ⟨k, v⟩ := f
    by_cases hk : k = key
    · subst hk
      simp [extraFields, h]
    · by_cases hown : k ∈ fieldNames
      · simpa [extraFields, hown, hk] using ih
      · simpa [extraFields, hown, hk] using ih

/-- Checked settings, written as an object, are in shape and are taken as they are by either check,
and a field of the object they come from that settings do not have keeps its value in them. -/
theorem check_checked {directory : String} (h : Location.isAbsolute directory = true)
    (given : Json) :
    let s := (checkLenient directory given).1
    checkLenient directory (.obj s.toFields) = (s, []) ∧
      checkStrict directory (.obj s.toFields) = .ok s ∧ InShape s.toFields ∧
      ∀ fields : Fields, given = .obj fields → ∀ key, key ∉ fieldNames →
        s.toFields.get? key = fields.get? key := by
  intro s
  have hs : s.WellShaped := wellShaped_check (wellShaped_standard h) .lenient given
  refine ⟨checkLenient_eq_silent.2 (check_toFields hs _ _),
    checkStrict_eq_ok.2 (check_toFields hs _ _), inShape_toFields hs, ?_⟩
  rintro fields rfl key hkey
  rw [get?_toFields hkey]
  exact get?_extraFields hkey fields

/-- An object with a format in upper case, a word for a switch, a dotted root and a field that
settings do not have. -/
def untidy : Fields :=
  [("root_name", .str "Ti.UI"), ("verbose", .int 3), ("format", .str " EXTERNS "),
    ("write_inheritance", .str "Yes")]

/-- The settings that are taken from it, with two warnings. -/
def tidied : Settings :=
  { standard "/" with format := .externs, writeInheritance := true, extra := [("verbose", .int 3)] }

theorem check_checked_untidy :
    Location.isAbsolute "/" = true ∧ (checkLenient "/" (.obj untidy)).1 = tidied ∧
      (checkLenient "/" (.obj untidy)).2.length = 2 ∧
      checkLenient "/" (.obj tidied.toFields) = (tidied, []) ∧
      checkStrict "/" (.obj tidied.toFields) = .ok tidied ∧ InShape tidied.toFields ∧
      tidied.toFields.get? "verbose" = some (.int 3) := by
  have habsolute : Location.isAbsolute "/" = true := by decide
  have htidied : (checkLenient "/" (.obj untidy)).1 = tidied := by rfl
  have h := check_checked habsolute (.obj untidy)
  rw [htidied] at h
  obtain ⟨hlenient, hstrict, hshape, hkept⟩ := h
  refine ⟨habsolute, htidied, by rfl, hlenient, hstrict, hshape, ?_⟩
  exact hkept untidy rfl "verbose" (by decide)

end ApiTypings.Settings
