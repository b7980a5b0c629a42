import ApiTypings.Proofs.Declaration.Whole

/-!
Deprecated members.

A member that is deprecated but not removed is marked by a comment in front of its declaration,
also where the declaration is commented out. That is so for a property of a class or an interface
and for a method, unless its overloads take its place. A property of a namespace, a narrowed method
and the members of the root are declared without the marker.
-/

namespace ApiTypings

namespace Text

/-- Trimming at the end does not go beyond characters that are trimmed already. -/
theorem exists_trimEndChars_append {cs : List Char} (h : trimEndChars cs = cs) (back : List Char) :
    ∃ left, trimEndChars (cs ++ back) = cs ++ left := by
  unfold trimEndChars at h ⊢
  rw [List.reverse_append, List.dropWhile_append]
  split
  · exact ⟨[], by rw [h, List.append_nil]⟩
  · exact ⟨(back.reverse.dropWhile isBlank).reverse,
      by rw [List.reverse_append, List.reverse_reverse]⟩

end Text

namespace Declaration

open Report

variable {options : Options} {record : TypeRecord} {scope : Scope} {pad line : String}
  {p : Property} {m : Method}

/-! ### Markers -/

/-- The marker of a deprecation. -/
def IsMarker (mark : String) : Prop := ∃ notes, mark = "/** @deprecated" ++ notes ++ " */ "

theorem isMarker_deprecatedMark (d : Deprecation) : IsMarker (deprecatedMark (some d)) := by
  have hword : Text.trimEndChars "@deprecated".toList = "@deprecated".toList := by decide
  obtain ⟨left, hleft⟩ := Text.exists_trimEndChars_append hword
    (' ' :: (Text.join " " (Text.words d.notes)).toList)
  have htrimmed : Text.trimChars ("@deprecated ".toList ++
      (Text.join " " (Text.words d.notes)).toList) = "@deprecated".toList ++ left := hleft
  have hescaped : escapeCommentChars ("@deprecated".toList ++ left) =
      "@deprecated".toList ++ escapeCommentChars left := by simp [escapeCommentChars]
  have htext : escapeComment (Text.trim ("@deprecated " ++ Text.join " " (Text.words d.notes))) =
      "@deprecated" ++ String.ofList (escapeCommentChars left) := by
    rw [escapeComment, Text.toList_trim, String.toList_append, htrimmed, hescaped,
      String.ofList_append, String.ofList_toList]
  have hopening : "/** @deprecated" = "/** " ++ "@deprecated" := rfl
  refine ⟨String.ofList (escapeCommentChars left), ?_⟩
  rw [hopening, deprecatedMark, htext]
  simp only [String.append_assoc]

/-- A member that is deprecated but was not removed. -/
def IsDeprecated (deprecation : Option Deprecation) : Prop :=
  ∃ d, deprecation = some d ∧ d.isRemoval = false

theorem IsDeprecated.marked {deprecation : Option Deprecation} (h : IsDeprecated deprecation) :
    removal? deprecation = none ∧ IsMarker (deprecatedMark deprecation) := by
  obtain ⟨d, rfl, hd⟩ := h
  exact ⟨by simp [removal?, hd], isMarker_deprecatedMark d⟩

/-! ### Members -/

/-- How a deprecated property is declared: behind its marker in a class or an interface, and without
one in a namespace. -/
inductive DeclaresDeprecated (p : Property) (pad line : String) : Scope → Prop
  | type {mark declaration : String} (hmark : IsMarker mark)
      (hdeclaration : PropertyDeclaration p .type declaration)
      (hline : DeclaresBehind pad mark declaration line) : DeclaresDeprecated p pad line .type
  | block (hline : DeclaresBehind pad "" (variableDeclaration p) line) :
      DeclaresDeprecated p pad line .block

/-- How a deprecated method is declared: without a marker by its overloads if it is narrowed, and
behind its marker otherwise. -/
inductive DefinesDeprecated (options : Options) (record : TypeRecord) (scope : Scope)
    (pad : String) (m : Method) (line : String) : Prop
  | plain {mark : String} (hnarrowed : isNarrowed options record m = false) (hmark : IsMarker mark)
      (hline : DeclaresBehind pad mark
        (scope.functionWord ++ signature m ++ clearedNote (lostMarks m)) line)
  | narrowed (events : EventBinding) (hnarrowed : isNarrowed options record m = true)
      (hline : line = Text.join "\n" ((eventOverloads m.name events).map fun o =>
        pad ++ scope.functionWord ++ o))

theorem DeclaresProperty.deprecated (h : DeclaresProperty scope pad p line)
    (hdeprecated : IsDeprecated p.deprecation) : DeclaresDeprecated p pad line scope := by
  obtain ⟨declaration, hdeclaration, hline⟩ := h
  cases scope with
  | type => exact .type hdeprecated.marked.2 hdeclaration hline
  | block =>
      cases hdeclaration
      exact .block hline

theorem DeclaresMethod.deprecated (h : DeclaresMethod options record scope pad m line)
    (hdeprecated : IsDeprecated m.deprecation) :
    DefinesDeprecated options record scope pad m line := by
  unfold DeclaresMethod at h
  split at h
  next hnarrowed =>
    obtain ⟨events, hline⟩ := h
    exact .narrowed events hnarrowed hline
  next hplain => exact .plain (Bool.eq_false_iff.2 hplain) hdeprecated.marked.2 h.2

/-! ### Trees -/

/-- The declarations of a tree mark what is deprecated: in the block of each declared branch there
is a text for each property and each method, and the deprecated ones are declared with a marker in
front, except for the properties of a namespace and for narrowed methods. The lines at the top level
have no markers. -/
structure MarksDeprecated (options : Options) (t : Tree) (text : String) : Prop where
  lines : ∀ b ∈ declaredBelowRoot t, ∃ r front properties middle methods,
    b.node.resolution = some r ∧
    HasBlock text ((contextOf options t).opening b.node r.record (scopeOf r.record b.children))
      (front ++ properties ++ middle ++ methods) ∧
    List.Forall₂ (fun p line => IsDeprecated p.deprecation →
      DeclaresDeprecated p (indentation b.node.path.depth ++ "\t") line
        (scopeOf r.record b.children)) r.record.properties properties ∧
    List.Forall₂ (fun m line => IsDeprecated m.deprecation →
      DefinesDeprecated options r.record (scopeOf r.record b.children)
        (indentation b.node.path.depth ++ "\t") m line) r.record.methods methods
  top : ∃ r types, (t.nodeAt []).resolution = some r ∧
    text = linesText (globalLines r.record) ++ types

/-- Whatever is resolved in a tree and whatever the options are, deprecated members are marked in
classes and interfaces and deprecated methods in namespaces, narrowed methods excepted. -/
theorem marksDeprecated_treeBody {t : Tree} {text : String}
    (h : (treeBody options t).outcome = .ok text) : MarksDeprecated options t text where
  lines b hb := by
    obtain ⟨r, hr, front, properties, middle, methods, hproperties, hmethods, hblock⟩ :=
      treeBody_hasLines h hb
    refine ⟨r, front, properties, middle, methods, hr, hblock, ?_, ?_⟩
    · exact hproperties.imp fun p line hline hdeprecated =>
        (hline hdeprecated.marked.1).deprecated hdeprecated
    · exact hmethods.imp fun m line hline hdeprecated =>
        (hline hdeprecated.marked.1).deprecated hdeprecated
  top := treeBody_globalLines h

/-- A property that is deprecated in favour of another one. -/
def deprecatedProperty : Json :=
  .obj [("name", .str "p"), ("type", .str "String"),
    ("deprecated", .obj [("since", .str "1"), ("notes", .str "Use q.")])]

/-- A namespace and a class in it, both with such a property. -/
def deprecatingRecords : Fields :=
  [("N", .obj [("name", .str "N"), ("properties", .arr [deprecatedProperty])]),
    ("N.C", .obj [("name", .str "N.C"), ("properties", .arr [deprecatedProperty])])]

/-- The tree of `deprecatingRecords`. -/
def deprecatingTree : Tree :=
  ⟨"Global", "",
    [Node.blank [] false,
      ⟨["N"], [("name", .str "N"), ("properties", .arr [deprecatedProperty])], false, none⟩,
      ⟨["N", "C"], [("name", .str "N.C"), ("properties", .arr [deprecatedProperty])], false, none⟩],
    []⟩

theorem marksDeprecated_treeBody_deprecatingRecords :
    (Tree.build (.obj deprecatingRecords) "Global").outcome = .ok deprecatingTree ∧
      ∃ text, (treeBody .standard (Exclusion.resolveAll deprecatingTree).tree).outcome = .ok text ∧
        MarksDeprecated .standard (Exclusion.resolveAll deprecatingTree).tree text := by
  have hresolved := show Exclusion.resolveAll deprecatingTree = _ by cbv
  have hbranch := show (Exclusion.resolveAll deprecatingTree).tree.rootBranch = _ by cbv
  obtain ⟨text, htext⟩ : ∃ text,
      (treeBody .standard (Exclusion.resolveAll deprecatingTree).tree).outcome = .ok text := by
    rw [treeBody, hbranch, hresolved]
    exact ⟨_, rfl⟩
  exact ⟨by rfl, text, htext, marksDeprecated_treeBody htext⟩

/-- The deprecated property of the class is marked, and the one of the namespace is not. -/
theorem deprecated_unmarked_deprecatingRecords :
    (Tree.build (.obj deprecatingRecords) "Global").outcome = .ok deprecatingTree ∧
    (∃ r p, ((Exclusion.resolveAll deprecatingTree).tree.nodeAt ["N"]).resolution = some r ∧
      r.record.properties = [p] ∧ IsDeprecated p.deprecation) ∧
    (treeBody .standard (Exclusion.resolveAll deprecatingTree).tree).outcome =
      .ok ("declare namespace N \x7b\n\tlet p: string;\n\tclass C \x7b\n" ++
        "\t\tprotected constructor();\n\t\t// N.C properties\n" ++
        "\t\t/** @deprecated Use q. */ p: string;\n\t\x7d\n\x7d\n") := by
  have hresolved := show Exclusion.resolveAll deprecatingTree = _ by cbv
  have hbranch := show (Exclusion.resolveAll deprecatingTree).tree.rootBranch = _ by cbv
  refine ⟨by rfl, ⟨_, _, by rw [hresolved]; rfl, rfl, _, rfl, rfl⟩, ?_⟩
  rw [treeBody, hbranch, hresolved]
  decide +kernel

end Declaration

end ApiTypings
