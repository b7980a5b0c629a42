import ApiTypings.Proofs.Declaration.Key
import ApiTypings.Proofs.Externs.Dictionary
import ApiTypings.Proofs.Externs.Reading

/-!
What a statement of externs binds.

A variable is bound to a single identifier, everything else is reached by its dotted path. A record
whose name is made of identifiers is bound well, as are its members and its dictionary, once the
root is no longer in front of the name. The root itself has no name to be bound by, so that what is
bound on its prototype has none either.
-/

namespace ApiTypings.Externs

open Declaration

variable {c : Char} {name other tail rootName : String}

/-! ### Dotted identifiers -/

/-- Whether a name is made of identifiers with dots between them. -/
def isQualified (name : String) : Bool :=
  (Text.pieces '.' name).all fun s => isProperIdentifier s.toList

theorem not_mem_of_identifier (h : isProperIdentifier name.toList = true)
    (hc : isIdentifierChar c = false) : c ∉ name.toList := fun hmem =>
  Bool.false_ne_true (hc.symm.trans (isIdentifierChar_of_mem h hmem))

theorem dot_not_mem (h : isProperIdentifier name.toList = true) : '.' ∉ name.toList :=
  not_mem_of_identifier h (by decide)

theorem isQualified_of_identifier (h : isProperIdentifier name.toList = true) :
    isQualified name = true := by
  rw [isQualified, Text.pieces_of_not_mem (dot_not_mem h)]
  simp [h]

theorem isDotted_of_identifier (h : isProperIdentifier name.toList = true) :
    isDotted name = false := by
  rw [isDotted, List.contains_eq_mem, decide_eq_false_iff_not]
  exact dot_not_mem h

theorem identifier_of_isQualified (h : isQualified name = true) (hdotted : isDotted name = false) :
    isProperIdentifier name.toList = true := by
  rw [isDotted, List.contains_eq_mem, decide_eq_false_iff_not] at hdotted
  rw [isQualified, Text.pieces_of_not_mem hdotted] at h
  simpa using h

theorem isQualified_append (front back : String) :
    isQualified (front ++ "." ++ back) = (isQualified front && isQualified back) := by
  rw [isQualified, Text.pieces_append rfl, List.all_append]
  rfl

theorem isQualified_char (h : isQualified name = true) (hc : c ∈ name.toList) :
    c = '.' ∨ isIdentifierChar c = true := by
  have hjoin : Text.join "." (Text.pieces '.' name) = name := Text.join_pieces rfl name
  rw [← hjoin] at hc
  rcases Text.mem_join hc with hdot | ⟨segment, hsegment, hc⟩
  · exact .inl (List.mem_singleton.1 hdot)
  · exact .inr (isIdentifierChar_of_mem (List.all_eq_true.1 h segment hsegment) hc)

theorem not_mem_of_isQualified (h : isQualified name = true) (hc : isIdentifierChar c = false)
    (hdot : c ≠ '.') : c ∉ name.toList := fun hmem =>
  (isQualified_char h hmem).elim hdot fun hchar => Bool.false_ne_true (hc.symm.trans hchar)

theorem StandsAlone.of_isQualified (h : isQualified name = true) : StandsAlone name :=
  ⟨not_mem_of_isQualified h (by decide) (by decide),
    not_mem_of_isQualified h (by decide) (by decide)⟩

theorem isQualified_ne_empty (h : isQualified name = true) : name ≠ "" := by
  rintro rfl
  exact absurd h (by decide)

theorem endings_of_identifier (h : isProperIdentifier name.toList = true) : endings name = 0 :=
  (StandsAlone.of_isQualified (isQualified_of_identifier h)).endings_eq_zero

/-! ### Statements -/

/-- What stands up to the first blank or semicolon. -/
def leading (cs : List Char) : List Char := cs.takeWhile fun c => c != ' ' && c != ';'

/-- Whether a statement binds what it should: a variable a single identifier, and anything else a
path of several. -/
def bindsWell (line : String) : Bool :=
  match line.toList with
  | 'v' :: 'a' :: 'r' :: ' ' :: rest => isProperIdentifier (leading rest)
  | cs => isQualified (String.ofList (leading cs)) && isDotted (String.ofList (leading cs))

/-- What stands behind a name that is bound. -/
def EndsName (tail : String) : Prop := ∃ c ∈ [' ', ';'], ∃ rest, tail.toList = c :: rest

theorem leading_append (h : isQualified name = true) (htail : EndsName tail) :
    leading (name ++ tail).toList = name.toList := by
  obtain ⟨c, hc, rest, hrest⟩ := htail
  have hstop : (c != ' ' && c != ';') = false := by
    rcases List.mem_cons.1 hc with rfl | hc
    · rfl
    · obtain rfl := List.mem_singleton.1 hc
      rfl
  rw [leading, String.toList_append, List.takeWhile_append_of_pos, hrest,
    List.takeWhile_cons_of_neg (by simp [hstop]), List.append_nil]
  intro c hc
  have hblank : c ≠ ' ' := fun hblank =>
    not_mem_of_isQualified h (by decide) (by decide) (hblank ▸ hc)
  have hend : c ≠ ';' := fun hend =>
    not_mem_of_isQualified h (by decide) (by decide) (hend ▸ hc)
  simp [hblank, hend]

theorem bindsWell_variable (h : isQualified name = true) (htail : EndsName tail) :
    bindsWell ("var " ++ name ++ tail) = isProperIdentifier name.toList := by
  have hline : ("var " ++ name ++ tail).toList =
      'v' :: 'a' :: 'r' :: ' ' :: (name ++ tail).toList := by
    rw [String.append_assoc, String.toList_append]
    rfl
  rw [bindsWell, hline]
  exact congrArg isProperIdentifier (leading_append h htail)

theorem bindsWell_path (h : isQualified name = true) (hdotted : isDotted name = true)
    (htail : EndsName tail) : bindsWell (name ++ tail) = true := by
  have hleading := leading_append h htail
  rw [bindsWell]
  split
  next rest hvariable =>
    -- What stands in front of the first blank would be "var", which has no dot in it.
    rw [hvariable] at hleading
    rw [isDotted, ← hleading] at hdotted
    exact absurd hdotted (by simp [leading])
  · rw [hleading, String.ofList_toList, h, hdotted, Bool.and_self]

theorem bindsWell_bindingOf (h : isQualified name = true) (htail : EndsName tail) :
    bindsWell (bindingOf name ++ tail) = true := by
  rw [bindingOf]
  split
  next hdotted => exact bindsWell_path h hdotted htail
  next hsingle =>
    rw [bindsWell_variable h htail]
    exact identifier_of_isQualified h (by simpa using hsingle)

theorem endsName_semicolon : EndsName ";" := ⟨';', by simp, [], rfl⟩

theorem endsName_blank (rest : String) : EndsName (" " ++ rest) :=
  ⟨' ', by simp, rest.toList, by simp⟩

/-! ### Owners -/

/-- A name that a record is declared by: none for the root, and else one that is made of
identifiers. -/
def IsDeclared (declName : String) : Prop := declName = "" ∨ isQualified declName = true

theorem standsAlone_ownerOf (h : IsDeclared declName) : StandsAlone (ownerOf declName) := by
  rw [ownerOf]
  rcases h with rfl | h
  · decide
  · rw [if_neg (isQualified_ne_empty h)]
    exact (StandsAlone.of_isQualified h).append (by decide)

theorem standsAlone_bindingOf (h : isQualified name = true) : StandsAlone (bindingOf name) := by
  have hvariable : StandsAlone "var " := by decide
  rw [bindingOf]
  split
  · exact .of_isQualified h
  · exact hvariable.append (.of_isQualified h)

/-- What is bound to the owner itself, is a variable of the root. -/
theorem bindsWell_owned {tail : String} (h : IsDeclared declName)
    (hname : isProperIdentifier name.toList = true) (htail : EndsName tail) :
    bindsWell (ownerOf declName ++ name ++ tail) = true := by
  have hqualified := isQualified_of_identifier hname
  rw [ownerOf]
  rcases h with rfl | h
  · rw [if_pos rfl, bindsWell_variable hqualified htail]
    exact hname
  · rw [if_neg (isQualified_ne_empty h)]
    exact bindsWell_path (by rw [isQualified_append, h, hqualified, Bool.and_self])
      (isDotted_append declName name) htail

/-- The root has no prototype to bind anything to. -/
theorem bindsWell_prototype {tail : String} (h : IsDeclared declName)
    (hname : isProperIdentifier name.toList = true) (htail : EndsName tail) :
    bindsWell (ownerOf declName ++ "prototype." ++ name ++ tail) = true ↔ declName ≠ "" := by
  have hprototype : ("prototype." : String) = "prototype" ++ "." := rfl
  have hpath : isQualified ("prototype" ++ "." ++ name) = true := by
    have hfirst : isQualified "prototype" = true := by decide
    rw [isQualified_append, hfirst, isQualified_of_identifier hname, Bool.and_self]
  have hline : ownerOf declName ++ "prototype." ++ name ++ tail =
      ownerOf declName ++ ("prototype" ++ "." ++ name) ++ tail := by
    rw [hprototype]
    simp only [String.append_assoc]
  rw [hline, ownerOf]
  rcases h with rfl | h
  · rw [if_pos rfl, bindsWell_variable hpath htail]
    refine iff_of_false (fun hidentifier => ?_) (not_not_intro rfl)
    exact dot_not_mem hidentifier (by simp)
  · have hne := isQualified_ne_empty h
    rw [if_neg hne]
    refine iff_of_true ?_ hne
    exact bindsWell_path (by rw [isQualified_append, h, hpath, Bool.and_self])
      (isDotted_append declName _) htail

/-- What a member is bound to its owner by: its name, on the prototype unless it is static. -/
def placed (isStatic : Bool) (name : String) : String :=
  if isStatic then name else "prototype." ++ name

theorem bindsWell_placed {tail : String} {isStatic : Bool} (h : IsDeclared declName)
    (hname : isProperIdentifier name.toList = true) (htail : EndsName tail) :
    bindsWell (ownerOf declName ++ placed isStatic name ++ tail) = true ↔
      (declName = "" → isStatic = true) := by
  cases isStatic with
  | true => exact iff_of_true (bindsWell_owned h hname htail) fun _ => rfl
  | false =>
      rw [placed, if_neg Bool.false_ne_true, ← String.append_assoc,
        bindsWell_prototype h hname htail]
      simp

theorem standsAlone_placed (isStatic : Bool) (hname : isProperIdentifier name.toList = true) :
    StandsAlone (placed isStatic name) := by
  have halone := StandsAlone.of_isQualified (isQualified_of_identifier hname)
  have hprototype : StandsAlone "prototype." := by decide
  cases isStatic with
  | true => exact halone
  | false => exact hprototype.append halone

/-! ### Names of records -/

theorem unwrapGlobal_root (rootName : String) : unwrapGlobal rootName rootName = "" := by
  simp [unwrapGlobal]

/-- A name other than the root's is still made of identifiers without the root in front. -/
theorem isQualified_unwrapGlobal (h : isQualified name = true) (hroot : name ≠ rootName) :
    isQualified (unwrapGlobal rootName name) = true := by
  rw [unwrapGlobal, if_neg hroot]
  split
  next hlead =>
    obtain ⟨rest, hrest⟩ := List.isPrefixOf_iff_prefix.1 hlead
    have hname : name = rootName ++ "." ++ String.ofList rest := by
      apply String.toList_injective
      simp [← hrest]
    rw [← hrest, List.drop_left]
    rw [hname, isQualified_append, Bool.and_eq_true] at h
    exact h.2
  · exact h

/-- Without the root in front, the root itself has no name, and no other record loses its own. -/
theorem isDeclared_unwrapGlobal (rootName : String) (h : isQualified name = true) :
    IsDeclared (unwrapGlobal rootName name) ∧
      (unwrapGlobal rootName name = "" ↔ name = rootName) := by
  by_cases hroot : name = rootName
  · rw [hroot, unwrapGlobal_root]
    exact ⟨.inl rfl, iff_of_true rfl rfl⟩
  · have hunwrapped := isQualified_unwrapGlobal h hroot
    exact ⟨.inr hunwrapped, iff_of_false (isQualified_ne_empty hunwrapped) hroot⟩

theorem lookup_bracketedNames_of_identifier (h : isProperIdentifier name.toList = true) :
    bracketedNames.lookup name = none := by
  cases hlookup : bracketedNames.lookup name with
  | none => rfl
  | some bracketed =>
      rcases (lookup_bracketedNames hlookup).2 with rfl | rfl
      · exact absurd h (by decide)
      · exact absurd h (by decide)

/-- A name that is made of identifiers is declared as it is. -/
theorem declaredName_of_isQualified (h : isQualified name = true) : declaredName name = name := by
  cases hdotted : isDotted name with
  | true =>
      obtain ⟨front, last, rfl, hlast⟩ := exists_segments hdotted
      rw [isQualified_append, Bool.and_eq_true] at h
      have hsingle : isDotted last = false := by
        rw [isDotted, List.contains_eq_mem, decide_eq_false_iff_not]
        exact hlast
      rw [declaredName_dotted hlast,
        lookup_bracketedNames_of_identifier (identifier_of_isQualified h.2 hsingle)]
      rfl
  | false =>
      rw [declaredName, hdotted, if_neg Bool.false_ne_true,
        lookup_bracketedNames_of_identifier (identifier_of_isQualified h hdotted)]
      rfl

theorem declaredName_of_isDeclared (h : IsDeclared name) : declaredName name = name := by
  rcases h with rfl | h
  · decide
  · exact declaredName_of_isQualified h

/-! ### Names of dictionaries -/

theorem unbracketed_of_isQualified (h : isQualified name = true) : Unbracketed name := by
  have hbracket : '[' ∉ name.toList := not_mem_of_isQualified h (by decide) (by decide)
  have hquote : '"' ∉ name.toList := not_mem_of_isQualified h (by decide) (by decide)
  exact ⟨fun hwithin => hbracket (hwithin.subset List.mem_cons_self),
    fun hwithin => hquote (hwithin.subset List.mem_cons_self)⟩

theorem isProperIdentifier_marked (h : ∀ c ∈ name.toList, isIdentifierChar c = true) :
    isProperIdentifier ("_Dictionary_" ++ name).toList = true := by
  have hmark : "_Dictionary_".toList = '_' :: "Dictionary_".toList := rfl
  rw [String.toList_append, hmark, List.cons_append, isProperIdentifier, List.all_append,
    List.all_eq_true.2 h]
  decide

/-- A name without a dot gives a variable for the dictionary. -/
theorem dictionaryName_of_identifierChars (h : ∀ c ∈ name.toList, isIdentifierChar c = true) :
    dictionaryName name = "var " ++ ("_Dictionary_" ++ name) := by
  have hopening : ¬"[\"".toList <:+: name.toList := fun hwithin =>
    absurd (h _ (hwithin.subset (List.mem_cons_self (a := '[')))) (by decide)
  have hclosing : ¬"\"]".toList <:+: name.toList := fun hwithin =>
    absurd (h _ (hwithin.subset (List.mem_cons_self (a := '"')))) (by decide)
  have hdot : '.' ∉ name.toList := fun hc => absurd (h _ hc) (by decide)
  rw [dictionaryName, Text.replace_of_not_infix _ hopening, Text.replace_of_not_infix _ hclosing,
    Text.pieces_of_not_mem hdot]
  simp [Text.join]

theorem dictionaryName_of_isQualified (h : isQualified name = true) :
    ∃ marked, isQualified marked = true ∧ dictionaryName name = bindingOf marked := by
  cases hdotted : isDotted name with
  | true =>
      have hdeclared := declaredName_of_isQualified h
      have hbrackets := unbracketed_of_isQualified h
      obtain ⟨front, last, rfl, hlast⟩ := exists_segments hdotted
      have hname := dictionaryName_declaredName hlast hbrackets
      rw [hdeclared] at hname
      rw [isQualified_append, Bool.and_eq_true] at h
      have hlastChars (c : Char) (hc : c ∈ last.toList) : isIdentifierChar c = true :=
        (isQualified_char h.2 hc).resolve_left fun hdot => hlast (hdot ▸ hc)
      refine ⟨_, ?_, by rw [hname, bindingOf, if_pos (isDotted_append front _)]⟩
      rw [isQualified_append, h.1,
        isQualified_of_identifier (isProperIdentifier_marked hlastChars), Bool.and_self]
  | false =>
      have hsingle := identifier_of_isQualified h hdotted
      have hchars : ∀ c ∈ name.toList, isIdentifierChar c = true := fun c hc =>
        isIdentifierChar_of_mem hsingle hc
      have hmarked := isProperIdentifier_marked hchars
      refine ⟨_, isQualified_of_identifier hmarked, ?_⟩
      rw [bindingOf, isDotted_of_identifier hmarked, if_neg Bool.false_ne_true,
        dictionaryName_of_identifierChars hchars]

/-- A dictionary has a name of its own, even if the type that it belongs to has none. -/
theorem dictionaryName_of_isDeclared (h : IsDeclared name) :
    ∃ marked, isQualified marked = true ∧ dictionaryName name = bindingOf marked := by
  rcases h with rfl | h
  · have hnameless : dictionaryName "" = "var " ++ ("_Dictionary_" ++ "") :=
      dictionaryName_of_identifierChars (by simp)
    exact ⟨"_Dictionary_", by decide, hnameless.trans (by decide)⟩
  · exact dictionaryName_of_isQualified h

end ApiTypings.Externs
