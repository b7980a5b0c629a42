import ApiTypings.Externs.File
import ApiTypings.Proofs.Success
import ApiTypings.Proofs.Text.Pieces
import ApiTypings.Proofs.Text.Replacement
import ApiTypings.Proofs.TypeText.Qualification

/-!
The dictionary of a type, where it is declared and where it is referred to.

A record with properties that can be written ends in the declaration of its dictionary. The name of
the dictionary is made from the name that the record is declared by, which has no root in front and
may have its last segment in brackets. A type expression that asks for the dictionary knows neither
of the two: it marks the last segment of what is written in it. So the two meet for dotted names
that are declared as they are written, apart from brackets that the declaration itself has made.
-/

namespace ApiTypings.Externs

open TypeText.Closure

variable {cls : Fields} {key rootName front last name declName : String}

/-! ### The name that is referred to -/

/-- How a type expression refers to the dictionary of a type. -/
def reference (name : String) : String :=
  annotation (.str ("Dictionary<" ++ name ++ ">")) false false

theorem reference_of_single_line (h : '\n' ∉ name.toList) :
    reference name =
      String.ofList (qualifyLine ("Dictionary<".toList ++ (name.toList ++ ['>']))) := by
  have hchars : ("Dictionary<" ++ name ++ ">").toList =
      "Dictionary<".toList ++ (name.toList ++ ['>']) := by
    rw [String.toList_append, String.toList_append, List.append_assoc]
    rfl
  have hsingle : '\n' ∉ ("Dictionary<" ++ name ++ ">").toList := by
    rw [hchars]
    simpa using h
  have hpresent : (Json.str ("Dictionary<" ++ name ++ ">")).truthy = true := by
    simp [Json.truthy]
  rw [reference, annotation, if_pos hpresent, plain, qualify_of_single_line hsingle, hchars]
  apply String.toList_injective
  simp

theorem toList_reference {front last : List Char} (hname : name.toList = front ++ '.' :: last)
    (hline : '\n' ∉ name.toList) (hlast : '.' ∉ last) :
    (reference name).toList = front ++ dictionaryMark ++ last := by
  rw [reference_of_single_line hline, String.toList_ofList, hname, qualifyLine_dictionary hlast]

/-! ### The name that is declared -/

/-- A name without the brackets that stand around a last segment which could not be written else. -/
structure Unbracketed (name : String) : Prop where
  opening : ¬"[\"".toList <:+: name.toList
  closing : ¬"\"]".toList <:+: name.toList

theorem isDotted_append (front last : String) : isDotted (front ++ "." ++ last) = true := by
  simp [isDotted]

theorem exists_segments (h : isDotted name = true) :
    ∃ front last, name = front ++ "." ++ last ∧ '.' ∉ last.toList :=
  Text.exists_last_piece rfl (List.contains_iff_mem.1 h)

theorem pieces_dotted (hlast : '.' ∉ last.toList) :
    Text.pieces '.' (front ++ "." ++ last) = Text.pieces '.' front ++ [last] := by
  rw [Text.pieces_append rfl, Text.pieces_of_not_mem hlast]

theorem declaredName_dotted (hlast : '.' ∉ last.toList) :
    declaredName (front ++ "." ++ last) =
      ((bracketedNames.lookup last).map (front ++ ·)).getD (front ++ "." ++ last) := by
  rw [declaredName, if_pos (isDotted_append front last), pieces_dotted hlast]
  dsimp only
  have hjoin : Text.join "." (Text.pieces '.' front) = front := Text.join_pieces rfl front
  rw [List.getLastD_concat, List.dropLast_concat, hjoin]
  cases bracketedNames.lookup last <;> rfl

theorem lookup_bracketedNames {bracketed : String}
    (h : bracketedNames.lookup last = some bracketed) :
    bracketed = "[\"" ++ last ++ "\"]" ∧ (last = "2DMatrix" ∨ last = "3DMatrix") := by
  by_cases htwo : last = "2DMatrix"
  · subst htwo
    exact ⟨(Option.some.inj h).symm, .inl rfl⟩
  by_cases hthree : last = "3DMatrix"
  · subst hthree
    exact ⟨(Option.some.inj h).symm, .inr rfl⟩
  · rw [bracketedNames, List.lookup_cons, beq_false_of_ne htwo, List.lookup_cons,
      beq_false_of_ne hthree] at h
    cases h

/-- Undoing the brackets of a declared name gives the name back. -/
theorem undo_declaredName (hlast : '.' ∉ last.toList) (h : Unbracketed (front ++ "." ++ last)) :
    Text.replace "\"]" "" (Text.replace "[\"" "." (declaredName (front ++ "." ++ last))) =
      front ++ "." ++ last := by
  rw [declaredName_dotted hlast]
  cases hlookup : bracketedNames.lookup last with
  | none =>
    rw [Option.map_none, Option.getD_none, Text.replace_of_not_infix _ h.opening,
      Text.replace_of_not_infix _ h.closing]
  | some bracketed =>
    obtain ⟨rfl, hmatrix⟩ := lookup_bracketedNames hlookup
    have hfront : ¬"[\"".toList <:+: front.toList := fun hwithin =>
      h.opening (hwithin.trans (by simpa using List.infix_append [] front.toList _))
    have hsplit : front ++ ("[\"" ++ last ++ "\"]") = front ++ "[\"" ++ (last ++ "\"]") := by
      simp only [String.append_assoc]
    have hend : Text.replace "[\"" "." (last ++ "\"]") = last ++ "\"]" := by
      rcases hmatrix with rfl | rfl <;> exact Text.replace_of_not_infix _ (by decide)
    have hopened : Text.replace "[\"" "." (front ++ "[\"" ++ (last ++ "\"]")) = _ :=
      Text.replace_pair rfl (by decide) "." hfront (last ++ "\"]")
    have hclosed : Text.replace "\"]" "" (front ++ "." ++ last ++ "\"]" ++ "") = _ :=
      Text.replace_pair rfl (by decide) "" h.closing ""
    have hjoin : front ++ "." ++ (last ++ "\"]") = front ++ "." ++ last ++ "\"]" :=
      String.append_assoc.symm
    have hnothing : Text.replace "\"]" "" "" = "" := Text.replace_of_not_infix _ (by decide)
    rw [String.append_empty] at hclosed
    rw [Option.map_some, Option.getD_some, hsplit, hopened, hend, hjoin, hclosed, hnothing,
      String.append_empty, String.append_empty]

theorem dictionaryName_declaredName (hlast : '.' ∉ last.toList)
    (h : Unbracketed (front ++ "." ++ last)) :
    dictionaryName (declaredName (front ++ "." ++ last)) =
      front ++ "." ++ ("_Dictionary_" ++ last) := by
  have hseveral : (Text.pieces '.' front ++ [last]).length ≠ 1 := by
    have hfront := List.length_pos_iff.2 (Text.pieces_ne_nil '.' front)
    rw [List.length_append, List.length_singleton]
    omega
  have hjoin : Text.join "." (Text.pieces '.' front) = front := Text.join_pieces rfl front
  rw [dictionaryName, undo_declaredName hlast h, pieces_dotted hlast]
  rw [if_neg hseveral, List.getLastD_concat, List.dropLast_concat,
    Text.join_concat (Text.pieces_ne_nil '.' front), hjoin]

/-- A dotted name is marked alike where it is declared and where it is referred to. -/
theorem dictionaryName_eq_reference (hdotted : isDotted name = true) (hline : '\n' ∉ name.toList)
    (h : Unbracketed name) : dictionaryName (declaredName name) = reference name := by
  have hjoint : ".".toList = ['.'] := rfl
  obtain ⟨front, last, rfl, hlast⟩ := exists_segments hdotted
  have hchars : (front ++ "." ++ last).toList = front.toList ++ '.' :: last.toList := by
    rw [String.toList_append, String.toList_append, hjoint, List.append_assoc,
      List.singleton_append]
  have hmark : dictionaryMark ++ last.toList =
      '.' :: (("_Dictionary_" : String) ++ last).toList := by
    rw [String.toList_append]
    rfl
  refine String.toList_injective ?_
  rw [dictionaryName_declaredName hlast h, toList_reference hchars hline hlast, List.append_assoc,
    hmark, String.toList_append, String.toList_append, hjoint, List.append_assoc,
    List.singleton_append]

/-! ### The lines of a record -/

/-- Whether a property is one of those that make up the dictionary: one of the prototype, and one
that can be written. -/
def isWritable (m : Named) : Bool :=
  !m.name.text?.any isUpper && (m.fields.get "permission").text? != some "read-only"

theorem joinable_eq_ok {v : Json} {name : String} (h : joinable v = .ok name) : v = .str name := by
  cases v with
  | str s => exact congrArg Json.str (Except.ok.inj h)
  | _ => cases h

theorem writable_of_bindProperty {owner : String} {m : Named} {bound : BoundProperty}
    (h : bindProperty owner m = .ok bound) (hm : isWritable m = true) :
    bound.writable.isSome = true := by
  obtain ⟨summary, -, h⟩ := Success.bind_eq_ok.1 h
  obtain ⟨since, -, h⟩ := Success.bind_eq_ok.1 h
  obtain ⟨name, hname, h⟩ := Success.bind_eq_ok.1 h
  rw [isWritable, joinable_eq_ok hname, Bool.and_eq_true, Bool.not_eq_true', bne,
    Bool.not_eq_true'] at hm
  obtain ⟨hlower, hpermitted⟩ := hm
  have hlower : isUpper name = false := hlower
  rw [hlower, hpermitted] at h
  obtain rfl := Except.ok.inj h
  rfl

theorem dictionary_of_propertiesText {text : String} {dictionary : List String}
    (hdeclared : declName ≠ "") (hwritable : ∃ m ∈ (cls.get "properties").members, isWritable m)
    (h : propertiesText cls declName = .ok (text, dictionary)) :
    ∃ fields, dictionary = ["/**", recordOpening, fields, recordClosing, " */",
      dictionaryName declName ++ ";", ""] := by
  obtain ⟨bound, hbound, h⟩ := Success.bind_eq_ok.1 h
  obtain ⟨lines, hlines, h⟩ := Success.bind_eq_ok.1 h
  obtain rfl := congrArg Prod.snd (Except.ok.inj h)
  obtain ⟨m, hm, hwrite⟩ := hwritable
  obtain ⟨b, hb, hbind⟩ := Success.exists_of_mem_mapM hbound hm
  obtain ⟨field, hfield⟩ := Option.isSome_iff_exists.1 (writable_of_bindProperty hbind hwrite)
  have hsome : field ∈ bound.filterMap (·.writable) := List.mem_filterMap.2 ⟨b, hb, hfield⟩
  have hfields : (bound.filterMap (·.writable)).isEmpty = false :=
    List.isEmpty_eq_false_iff.2 (List.ne_nil_of_mem hsome)
  rw [dictionaryLines, hfields, dictionaryOwner, if_pos hdeclared] at hlines
  exact ⟨_, (Except.ok.inj hlines).symm⟩

theorem propertiesPart_of_ne_null (h : cls.get "properties" ≠ .null) :
    propertiesPart cls declName =
      (propertiesText cls declName).map fun r => (["", r.1], r.2) := by
  unfold propertiesPart
  split
  next hnull => exact absurd hnull h
  next => rfl

theorem lines_of_classLines {lines : List String} (hclass : isPseudo cls = false)
    (hname : recordName cls key = .ok name) (h : classLines cls key rootName = .ok lines) :
    ∃ front properties dictionary,
      propertiesPart cls (declaredName (unwrapGlobal rootName name)) =
          .ok (properties, dictionary) ∧
        lines = front ++ dictionary := by
  have hlines : typeLines cls (.ok (unwrapGlobal rootName name)) = .ok lines := by
    rwa [classLines, hname, hclass] at h
  obtain ⟨comment, -, h⟩ := Success.bind_eq_ok.1 hlines
  obtain ⟨declared, hdeclared, h⟩ := Success.bind_eq_ok.1 h
  obtain rfl := Except.ok.inj hdeclared
  obtain ⟨⟨properties, dictionary⟩, hproperties, h⟩ := Success.bind_eq_ok.1 h
  obtain ⟨methods, -, h⟩ := Success.bind_eq_ok.1 h
  exact ⟨_, properties, dictionary, hproperties, (Except.ok.inj h).symm⟩

/-! ### Declaration and reference -/

/-- Lines that end in a dictionary which is declared under the name by which type expressions refer
to the dictionary of a type. -/
def DeclaresReference (lines : List String) (name : String) : Prop :=
  ∃ front fields, lines = front ++ ["/**", recordOpening, fields, recordClosing, " */",
    bindingOf (reference name) ++ ";", ""]

/-- The line that binds a declared dictionary is the one before the last. -/
theorem DeclaresReference.binding {lines : List String} (h : DeclaresReference lines name) :
    lines.dropLast.getLast? = some (bindingOf (reference name) ++ ";") := by
  obtain ⟨front, fields, rfl⟩ := h
  rw [List.dropLast_append_of_ne_nil (List.cons_ne_nil _ _)]
  exact List.getLast?_append_of_ne_nil front (List.cons_ne_nil _ _)

theorem declaredName_ne_empty (hdotted : isDotted name = true) (h : Unbracketed name) :
    declaredName name ≠ "" := by
  intro hempty
  obtain ⟨front, last, rfl, hlast⟩ := exists_segments hdotted
  have hundo := undo_declaredName hlast h
  have hopened : Text.replace "[\"" "." "" = "" := Text.replace_of_not_infix _ (by decide)
  have hclosed : Text.replace "\"]" "" "" = "" := Text.replace_of_not_infix _ (by decide)
  rw [hempty, hopened, hclosed] at hundo
  rw [← hundo] at hdotted
  exact absurd hdotted (by decide)

theorem isDotted_reference (hdotted : isDotted name = true) (hline : '\n' ∉ name.toList)
    (h : Unbracketed name) : isDotted (reference name) = true := by
  obtain ⟨front, last, rfl, hlast⟩ := exists_segments hdotted
  rw [← dictionaryName_eq_reference hdotted hline h, dictionaryName_declaredName hlast h]
  exact isDotted_append front _

/-- A record of several segments that is declared as it is written, and that has a property which
can be written, ends in the dictionary that a type expression refers to by the record's name. -/
theorem classLines_declaresReference {lines : List String} (hclass : isPseudo cls = false)
    (hname : recordName cls key = .ok name) (hdotted : isDotted name = true)
    (hroot : unwrapGlobal rootName name = name) (hline : '\n' ∉ name.toList)
    (hbrackets : Unbracketed name)
    (hwritable : ∃ m ∈ (cls.get "properties").members, isWritable m = true)
    (h : classLines cls key rootName = .ok lines) : DeclaresReference lines name := by
  obtain ⟨front, properties, dictionary, hproperties, rfl⟩ := lines_of_classLines hclass hname h
  rw [hroot] at hproperties
  have hpresent : cls.get "properties" ≠ .null := by
    obtain ⟨m, hm, -⟩ := hwritable
    intro hnull
    rw [hnull] at hm
    exact absurd hm List.not_mem_nil
  rw [propertiesPart_of_ne_null hpresent] at hproperties
  obtain ⟨⟨text, _⟩, htext, hparts⟩ := Success.map_eq_ok.1 hproperties
  obtain rfl := congrArg Prod.snd hparts
  obtain ⟨fields, hfields⟩ :=
    dictionary_of_propertiesText (declaredName_ne_empty hdotted hbrackets) hwritable htext
  refine ⟨front, fields, ?_⟩
  rw [bindingOf, if_pos (isDotted_reference hdotted hline hbrackets),
    ← dictionaryName_eq_reference hdotted hline hbrackets, ← hfields]

/-- A record with one property, which can be written. -/
def sized (name : String) : Fields :=
  [("name", .str name),
    ("properties", .arr [.obj [("name", .str "width"), ("type", .str "Number")]])]

/-- The lines of such a record, from the name that it is declared by, what binds it and what binds
its dictionary. -/
def sizedLines (declName binding dictionary : String) : List String :=
  ["/**", " */", binding ++ " = function() \x7b\x7d;", "",
    "/**\n * \n\n * @type \x7bNumber\x7d width\n */\n" ++ declName ++ ".prototype.width;\n", "",
    "/**", recordOpening, " *   width: Number", recordClosing, " */", dictionary ++ ";", ""]

/-- The brackets that a declaration makes are undone in the name of its dictionary. -/
theorem classLines_declaresReference_bracketedRecord :
    isPseudo (sized "Titanium.UI.2DMatrix") = false ∧
      isDotted "Titanium.UI.2DMatrix" = true ∧
      unwrapGlobal "Global" "Titanium.UI.2DMatrix" = "Titanium.UI.2DMatrix" ∧
      DeclaresReference (sizedLines "Titanium.UI[\"2DMatrix\"]" "Titanium.UI[\"2DMatrix\"]"
        "Titanium.UI._Dictionary_2DMatrix") "Titanium.UI.2DMatrix" := by
  have hclass : isPseudo (sized "Titanium.UI.2DMatrix") = false := by decide
  have hname : recordName (sized "Titanium.UI.2DMatrix") "Matrix" =
      .ok "Titanium.UI.2DMatrix" := rfl
  have hdotted : isDotted "Titanium.UI.2DMatrix" = true := by decide
  have hroot : unwrapGlobal "Global" "Titanium.UI.2DMatrix" = "Titanium.UI.2DMatrix" := by decide
  have hline : '\n' ∉ "Titanium.UI.2DMatrix".toList := by decide
  have hbrackets : Unbracketed "Titanium.UI.2DMatrix" := ⟨by decide, by decide⟩
  have hwritable : ∃ m ∈ ((sized "Titanium.UI.2DMatrix").get "properties").members,
      isWritable m = true :=
    ⟨⟨.str "width", [("name", .str "width"), ("type", .str "Number")]⟩, .head _, by decide +kernel⟩
  have hlines : classLines (sized "Titanium.UI.2DMatrix") "Matrix" "Global" =
      .ok (sizedLines "Titanium.UI[\"2DMatrix\"]" "Titanium.UI[\"2DMatrix\"]"
        "Titanium.UI._Dictionary_2DMatrix") := by decide +kernel
  exact ⟨hclass, hdotted, hroot,
    classLines_declaresReference hclass hname hdotted hroot hline hbrackets hwritable hlines⟩

/-- A dictionary is not declared under the name it is referred to by where the name has one segment,
has the root in front, is written with brackets or goes over several lines. -/
theorem dictionary_undeclared_sizedRecords :
    (classLines (sized "Size") "Size" "Global" =
        .ok (sizedLines "Size" "var Size" "var _Dictionary_Size") ∧
      ¬DeclaresReference (sizedLines "Size" "var Size" "var _Dictionary_Size") "Size") ∧
    (classLines (sized "Global.UI.Size") "Size" "Global" =
        .ok (sizedLines "UI.Size" "UI.Size" "UI._Dictionary_Size") ∧
      ¬DeclaresReference (sizedLines "UI.Size" "UI.Size" "UI._Dictionary_Size") "Global.UI.Size") ∧
    (classLines (sized "UI[\"Size\"]") "Size" "Global" =
        .ok (sizedLines "UI[\"Size\"]" "var UI[\"Size\"]" "UI._Dictionary_Size") ∧
      ¬DeclaresReference (sizedLines "UI[\"Size\"]" "var UI[\"Size\"]" "UI._Dictionary_Size")
        "UI[\"Size\"]") ∧
    (classLines (sized "UI\n.Size") "Size" "Global" =
        .ok (sizedLines "UI\n.Size" "UI\n.Size" "UI\n._Dictionary_Size") ∧
      ¬DeclaresReference (sizedLines "UI\n.Size" "UI\n.Size" "UI\n._Dictionary_Size")
        "UI\n.Size") := by
  refine ⟨⟨by decide +kernel, fun h => ?_⟩, ⟨by decide +kernel, fun h => ?_⟩,
    ⟨by decide +kernel, fun h => ?_⟩, ⟨by decide +kernel, fun h => ?_⟩⟩ <;>
  exact absurd h.binding (by decide +kernel)

end ApiTypings.Externs
