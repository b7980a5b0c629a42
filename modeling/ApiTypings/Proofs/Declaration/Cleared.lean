import ApiTypings.Proofs.Declaration.Whole

/-!
Reports on cleared marks.

A parameter in front of one that has to be given loses its optional mark. Where the method is
declared in a block, the line ends with a note on the names concerned, and the journal has one
warning for it; there are no other remarks on members. A function at the top level loses its marks
without a note, and without a warning.
-/

namespace ApiTypings

/-! ### Remarks -/

namespace Report

variable {α β : Type}

/-- The remarks of a computation on members. -/
def remarks (x : Report α) : List Entry := x.log.filter (·.topic == .members)

/-- A computation goes on in the journal of the one before it, if that succeeds. -/
theorem log_bind (x : Report α) (f : α → Report β) : (x >>= f).log = x.log ++
    match x.outcome with
    | .ok a => (f a).log
    | .error _ => [] := by
  rcases x with ⟨v, l⟩
  cases v <;> rfl

/-- The remarks of two computations in sequence that succeed. -/
theorem remarks_bind {x : Report α} {f : α → Report β} {b : β}
    (h : (x >>= f).outcome = .ok b) : ∃ a, x.outcome = .ok a ∧ (f a).outcome = .ok b ∧
      remarks (x >>= f) = remarks x ++ remarks (f a) := by
  obtain ⟨a, ha, hb⟩ := outcome_bind_eq_ok.1 h
  refine ⟨a, ha, hb, ?_⟩
  rw [remarks, log_bind, ha, List.filter_append]
  rfl

/-- A computation without a remark on members, however it ends. -/
def Quiet (x : Report α) : Prop := remarks x = []

/-- What is quiet adds nothing to the remarks of what follows. -/
theorem Quiet.remarks_bind {x : Report α} {f : α → Report β} {b : β} (hx : Quiet x)
    (h : (x >>= f).outcome = .ok b) : ∃ a, x.outcome = .ok a ∧ (f a).outcome = .ok b ∧
      remarks (x >>= f) = remarks (f a) := by
  obtain ⟨a, ha, hb, hremarks⟩ := Report.remarks_bind h
  exact ⟨a, ha, hb, by rw [hremarks, hx, List.nil_append]⟩

/-- Nor does it to those of what it follows. -/
theorem remarks_bind_quiet {x : Report α} {f : α → Report β} (hf : ∀ a, Quiet (f a)) :
    remarks (x >>= f) = remarks x := by
  rw [remarks, log_bind, List.filter_append]
  split
  next a _ =>
    have hquiet : (f a).log.filter (·.topic == .members) = [] := hf a
    rw [hquiet, List.append_nil]
    rfl
  · exact List.append_nil _

theorem quiet_pure (a : α) : Quiet (pure a : Report α) := rfl

theorem log_ofLogged (x : Logged α) : (ofLogged x).log = x.log := List.append_nil _

theorem quiet_ofExcept (x : Except Fault α) : Quiet (ofExcept x) := rfl

theorem Quiet.bind {x : Report α} {f : α → Report β} (hx : Quiet x) (hf : ∀ a, Quiet (f a)) :
    Quiet (x >>= f) := by
  unfold Quiet remarks at hx
  rw [Quiet, remarks, log_bind, List.filter_append, hx, List.nil_append]
  split
  next a _ => exact hf a
  · rfl

theorem remarks_each {f : α → Report β} {g : α → List Entry} {as : List α} {bs : List β}
    (hf : ∀ a b, (f a).outcome = .ok b → remarks (f a) = g a)
    (h : (each f as).outcome = .ok bs) : remarks (each f as) = as.flatMap g := by
  induction as generalizing bs with
  | nil => rfl
  | cons a rest ih =>
      obtain ⟨b, hb, h, hhead⟩ := remarks_bind h
      obtain ⟨others, hothers, -⟩ := outcome_bind_eq_ok.1 h
      rw [each, hhead, remarks_bind_quiet fun _ => quiet_pure _, hf a b hb, ih hothers,
        List.flatMap_cons]

theorem quiet_each {f : α → Report β} (hf : ∀ a, Quiet (f a)) (as : List α) :
    Quiet (each f as) := by
  induction as with
  | nil => exact quiet_pure []
  | cons a rest ih => exact (hf a).bind fun _ => ih.bind fun _ => quiet_pure _

end Report

namespace Declaration

open Report

variable {ctx : Context} {n : Node} {r : Resolution} {pad keyword line : String} {m : Method}
  {p : Property} {names : List NameKey} {binding : Option EventBinding}

/-! ### What is quiet -/

theorem quiet_declared (type : Json) : Quiet (Report.ofLogged (TypeText.declared type)) := by
  rw [Quiet, remarks, log_ofLogged]
  refine List.filter_eq_nil_iff.2 fun e he => ?_
  have htopic := (TypeText.TypeForm.of_mem_warnings (TypeText.ofJson type) he).2
  simp [htopic]

theorem quiet_returnType (m : Method) : Quiet (Report.ofLogged (returnType m)) := by
  unfold returnType
  split
  · rfl
  · exact quiet_declared _

theorem quiet_declareFrom (alone : Bool) (parameters : List Parameter) :
    Quiet (declareFrom alone parameters) := by
  induction parameters with
  | nil => exact quiet_pure []
  | cons p later ih =>
      have hhead : Quiet (declareParameter alone p later) :=
        (quiet_ofExcept _).bind fun _ => (quiet_declared _).bind fun _ => quiet_pure _
      exact hhead.bind fun _ => ih.bind fun _ => quiet_pure _

theorem quiet_propertyLine (optional : Bool) : Quiet (propertyLine pad p names optional) := by
  unfold propertyLine
  split
  · exact (quiet_ofExcept _).bind fun _ => quiet_pure _
  · exact (quiet_ofExcept _).bind fun _ => (quiet_declared _).bind fun _ => quiet_pure _

theorem quiet_classProperty (record : TypeRecord) (optional : Bool) :
    Quiet (classProperty pad record p names optional) := by
  unfold classProperty
  split
  · exact (quiet_propertyLine optional).bind fun _ => quiet_pure _
  · exact quiet_propertyLine optional

theorem quiet_namespaceProperty (record : TypeRecord) :
    Quiet (namespaceProperty pad record p names) := by
  unfold namespaceProperty
  split
  · exact (quiet_ofExcept _).bind fun _ => quiet_pure _
  · refine (quiet_declared _).bind fun _ => ?_
    dsimp only
    split
    · exact quiet_pure _
    · exact (quiet_ofExcept _).bind fun _ => quiet_pure _

theorem quiet_namespaceProperties : Quiet (namespaceProperties pad r) := by
  unfold namespaceProperties
  split
  · exact quiet_pure _
  · exact (quiet_ofExcept _).bind fun _ =>
      (quiet_each (fun _ => quiet_namespaceProperty r.record) _).bind fun _ => quiet_pure _

theorem quiet_mapEvent (owner baseType : String) (e : Event) :
    Quiet (mapEvent owner pad baseType e) := by
  have hline (p : Property) : Quiet (payloadLine pad p) :=
    (quiet_ofExcept _).bind fun _ => (quiet_declared _).bind fun _ => quiet_pure _
  unfold mapEvent
  split
  · exact (quiet_ofExcept _).bind fun _ => quiet_pure _
  · exact (quiet_ofExcept _).bind fun _ => (quiet_each hline _).bind fun _ =>
      (quiet_ofExcept _).bind fun _ => quiet_pure _

theorem quiet_eventTypes (record : TypeRecord) (thisType : Option String) :
    Quiet (ctx.eventTypes n record pad thisType) := by
  unfold Context.eventTypes
  split
  · refine (quiet_ofExcept _).bind fun events => ?_
    split
    · exact quiet_pure _
    · exact (quiet_each (quiet_mapEvent _ _) _).bind fun _ => quiet_pure _
  · exact quiet_pure _

theorem quiet_resolved : Quiet (ctx.resolved n) := by
  unfold Context.resolved
  split
  · exact quiet_pure _
  · exact quiet_ofExcept _

/-- Nothing is remarked on the members of the root. -/
theorem quiet_globalMembers : Quiet (globalMembers ctx n) := by
  have hproperty (p : Property) : Quiet (globalProperty p) := by
    unfold globalProperty
    split
    · exact quiet_pure _
    · exact (quiet_declared _).bind fun _ => quiet_pure _
  have hmethod (m : Method) : Quiet (globalMethod m) := by
    unfold globalMethod
    split
    · exact quiet_pure _
    · exact (quiet_declareFrom _ _).bind fun _ => (quiet_returnType m).bind fun _ => quiet_pure _
  exact quiet_resolved.bind fun _ => (quiet_each hproperty _).bind fun _ =>
    (quiet_each hmethod _).bind fun _ => quiet_pure _

/-! ### Remarks on methods -/

/-- The warning that names the parameters of a method that lost their marks, if there are any. -/
def clearedRemarks (m : Method) (names : List Json) : List Entry :=
  if names.isEmpty then []
  else [⟨.warning, .members, m.name.display ++ ": optional parameters " ++
    Text.join ", " (names.map Json.display) ++ " precede a required one."⟩]

/-- The remarks on a method: none if it was removed or is narrowed. -/
def methodRemarks (options : Options) (record : TypeRecord) (m : Method) : List Entry :=
  if (removal? m.deprecation).isSome || isNarrowed options record m then []
  else clearedRemarks m (lostMarks m)

/-- The remarks on the methods of a branch's own node. -/
def branchRemarks (options : Options) (b : Branch) : List Entry :=
  b.node.resolution.elim [] fun r => r.record.methods.flatMap (methodRemarks options r.record)

theorem remarks_reportCleared {cleared : List Json} {note : String}
    (h : (reportCleared m cleared).outcome = .ok note) :
    remarks (reportCleared m cleared) = clearedRemarks m cleared := by
  unfold reportCleared at h ⊢
  unfold clearedRemarks
  split at h
  next hnone =>
    rw [if_pos hnone, if_pos hnone]
    rfl
  next hsome =>
    rw [if_neg hsome, if_neg hsome]
    obtain ⟨text, htext, -, hremarks⟩ := remarks_bind h
    rw [hremarks, ← listedNames_eq htext]
    rfl

theorem remarks_plainMethodLine (h : (plainMethodLine pad m keyword).outcome = .ok line) :
    remarks (plainMethodLine pad m keyword) = clearedRemarks m (lostMarks m) := by
  obtain ⟨declared, hdeclared, h, hfirst⟩ := (quiet_declareFrom _ _).remarks_bind h
  obtain ⟨returns, -, h, hsecond⟩ := (quiet_returnType m).remarks_bind h
  obtain ⟨note, hnote, -⟩ := outcome_bind_eq_ok.1 h
  rw [plainMethodLine, declareParameters, hfirst, hsecond,
    remarks_bind_quiet fun _ => quiet_pure _, remarks_reportCleared hnote,
    clearedNames_eq hdeclared]

variable {options : Options} {record : TypeRecord}

theorem remarks_methodLine
    (hbinding : (binding.isSome && m.name.isTextIn eventMethods) = isNarrowed options record m)
    (h : (methodLine pad m names binding keyword).outcome = .ok line) :
    remarks (methodLine pad m names binding keyword) = methodRemarks options record m := by
  unfold methodLine at h ⊢
  unfold methodRemarks
  cases hremoval : removal? m.deprecation with
  | some d => exact (quiet_ofExcept _).bind fun _ => quiet_pure _
  | none =>
      rw [hremoval] at h
      obtain ⟨overloads, hoverloads, h, hremarks⟩ := (quiet_ofExcept _).remarks_bind h
      have hempty := isEmpty_narrowedOverloads hoverloads
      rw [hbinding] at hempty
      rw [Option.isSome_none, Bool.false_or]
      dsimp only
      rw [hremarks]
      cases hnarrowed : isNarrowed options record m with
      | true =>
          rw [hnarrowed, Bool.not_true] at hempty
          rw [hempty]
          rfl
      | false =>
          rw [hnarrowed, Bool.not_false] at hempty
          rw [hempty] at h ⊢
          exact remarks_plainMethodLine h

theorem remarks_namespaceMethod (hbinding : binding.isSome = narrows options record)
    (h : (namespaceMethod pad m names binding).outcome = .ok line) :
    remarks (namespaceMethod pad m names binding) = methodRemarks options record m := by
  have hnarrowed : (binding.isSome && m.name.isTextIn eventMethods) =
      isNarrowed options record m := by rw [hbinding, isNarrowed]
  unfold namespaceMethod at h ⊢
  cases hremoval : removal? m.deprecation with
  | some d =>
      rw [hremoval] at h
      exact remarks_methodLine hnarrowed h
  | none =>
      rw [hremoval] at h
      obtain ⟨valid, hvalid, h, hremarks⟩ := (quiet_ofExcept _).remarks_bind h
      dsimp only
      rw [hremarks]
      cases valid with
      | true => exact remarks_methodLine hnarrowed h
      | false =>
          -- A name that cannot be declared is not that of an event method, so the line that is
          -- commented out is as it would be with the binding.
          have hname := isTextIn_eventMethods_of_not_identifier hvalid
          obtain ⟨declared, hdeclared, -⟩ := outcome_bind_eq_ok.1 h
          have hunbound : ((none : Option EventBinding).isSome && m.name.isTextIn eventMethods) =
              isNarrowed options record m := by
            rw [isNarrowed, hname, Bool.and_false, Bool.and_false]
          have hplain := remarks_methodLine hunbound hdeclared
          exact (remarks_bind_quiet fun _ => quiet_pure _).trans hplain

/-! ### Remarks on branches -/

theorem remarks_classBody {shape : DeclarationKind} {others : List NameKey} {lines : List String}
    (hbinding : binding.isSome = narrows options r.record)
    (h : (classBody pad shape r names others binding).outcome = .ok lines) :
    remarks (classBody pad shape r names others binding) =
      r.record.methods.flatMap (methodRemarks options r.record) := by
  have hproperty (p : Property) :
      Quiet (classProperty pad r.record p names (shape == .interfaceDeclaration)) :=
    quiet_classProperty _ _
  obtain ⟨_, -, h, hremarks⟩ := (quiet_each hproperty _).remarks_bind h
  obtain ⟨_, hmethods, -⟩ := outcome_bind_eq_ok.1 h
  rw [classBody, hremarks, remarks_bind_quiet fun _ => quiet_pure _]
  refine remarks_each (fun m line => remarks_methodLine ?_) hmethods
  rw [hbinding, isNarrowed]

theorem remarks_classText {text : String} (h : (classText ctx n r).outcome = .ok text) :
    remarks (classText ctx n r) =
      r.record.methods.flatMap (methodRemarks ctx.options r.record) := by
  obtain ⟨_, -, h, hfirst⟩ := (quiet_ofExcept _).remarks_bind h
  obtain ⟨_, -, h, hsecond⟩ := (quiet_ofExcept _).remarks_bind h
  obtain ⟨events, hevents, h, hthird⟩ := (quiet_eventTypes _ _).remarks_bind h
  obtain ⟨body, hbody, -⟩ := outcome_bind_eq_ok.1 h
  have hbinding := isSome_eventTypes hevents
  have hmembers := remarks_classBody hbinding hbody
  rw [classText, hfirst, hsecond, hthird, remarks_bind_quiet fun _ => quiet_pure _, hmembers]

theorem remarks_namespaceMethods {lines : List String}
    (hbinding : binding.isSome = narrows options r.record)
    (h : (namespaceMethods pad r binding).outcome = .ok lines) :
    remarks (namespaceMethods pad r binding) =
      r.record.methods.flatMap (methodRemarks options r.record) := by
  unfold namespaceMethods at h ⊢
  split
  next hnone =>
    rw [List.isEmpty_iff.1 hnone]
    rfl
  next hsome =>
    rw [if_neg hsome] at h
    obtain ⟨_, -, h, hremarks⟩ := (quiet_ofExcept _).remarks_bind h
    obtain ⟨_, hmethods, -⟩ := outcome_bind_eq_ok.1 h
    rw [hremarks, remarks_bind_quiet fun _ => quiet_pure _]
    exact remarks_each (fun m line => remarks_namespaceMethod hbinding) hmethods

theorem remarks_namespaceMembers {lines : List String}
    (h : (namespaceMembers ctx n pad r).outcome = .ok lines) :
    remarks (namespaceMembers ctx n pad r) =
      r.record.methods.flatMap (methodRemarks ctx.options r.record) := by
  obtain ⟨events, hevents, h, hfirst⟩ := (quiet_eventTypes _ _).remarks_bind h
  obtain ⟨_, -, h, hsecond⟩ := quiet_namespaceProperties.remarks_bind h
  obtain ⟨_, hmethods, -⟩ := outcome_bind_eq_ok.1 h
  have hbinding := isSome_eventTypes hevents
  have hmembers := remarks_namespaceMethods hbinding hmethods
  rw [namespaceMembers, hfirst, hsecond, remarks_bind_quiet fun _ => quiet_pure _, hmembers]

/-- A branch that is declared makes the remarks on its own methods and those of what is nested in
it. -/
theorem remarks_fork {children : List Branch} {text : String} {below : List Entry}
    (hname : isDeclarable (ctx.baseName n) = true)
    (hfull : (Branch.fork n children).isPlaceholder = false)
    (h : (branchText ctx (.fork n children)).outcome = .ok text)
    (hbelow : ∀ nested, (branchTexts ctx children).outcome = .ok nested →
      (remarks (branchTexts ctx children)).Perm below) :
    (remarks (branchText ctx (.fork n children))).Perm
      (branchRemarks ctx.options (.fork n children) ++ below) := by
  rw [branchText, if_neg (by simp [hname]), if_neg (by simp [hfull])] at h ⊢
  obtain ⟨r, hr, h, hremarks⟩ := quiet_resolved.remarks_bind h
  have hbranch : branchRemarks ctx.options (.fork n children) =
      r.record.methods.flatMap (methodRemarks ctx.options r.record) := by
    rw [branchRemarks, Branch.node, resolution_of_resolved hr, Option.elim_some]
  have hleaf (hnone : children.isEmpty = true) : below = [] := by
    have hnested := hbelow ""
    rw [List.isEmpty_iff.1 hnone] at hnested
    exact List.nil_perm.1 (hnested rfl)
  rw [hremarks, hbranch]
  by_cases hkind : r.record.kind.instantiable
  · rw [if_pos hkind] at h ⊢
    obtain ⟨own, hown, h, hremarks⟩ := remarks_bind h
    rw [hremarks, remarks_classText hown]
    refine List.Perm.append_left _ ?_
    by_cases hnone : children.isEmpty
    · rw [if_pos hnone, hleaf hnone]
      exact .refl _
    · rw [if_neg hnone] at h ⊢
      obtain ⟨nested, hnested, -⟩ := outcome_bind_eq_ok.1 h
      rw [remarks_bind_quiet fun _ => quiet_pure _]
      exact hbelow nested hnested
  · rw [if_neg hkind] at h ⊢
    by_cases hnone : children.isEmpty
    · rw [if_pos hnone] at h ⊢
      rw [remarks_classText h, hleaf hnone, List.append_nil]
    · rw [if_neg hnone] at h ⊢
      obtain ⟨nested, hnested, h, hremarks⟩ := remarks_bind h
      obtain ⟨members, hmembers, -⟩ := outcome_bind_eq_ok.1 h
      -- The members of a namespace are read after what is nested in it.
      rw [hremarks, remarks_bind_quiet fun _ => quiet_pure _, remarks_namespaceMembers hmembers]
      exact List.perm_append_comm.trans ((hbelow nested hnested).append_left _)

mutual

/-- Declaring a branch makes the remarks on the methods of the branches that are declared, and no
other. -/
theorem remarks_branchText : ∀ (a : Branch) (text : String),
    (branchText ctx a).outcome = .ok text → (remarks (branchText ctx a)).Perm
      ((declaredBranches ctx.rootName a).flatMap (branchRemarks ctx.options))
  | .fork n children, text, h => by
      rw [declaredBranches]
      split
      next hdeclared =>
        obtain ⟨hname, hfull⟩ := Bool.and_eq_true_iff.1 hdeclared
        rw [List.flatMap_cons]
        exact remarks_fork hname (by simpa using hfull) h (remarks_branchTexts children)
      next hskipped =>
        rw [branchText]
        split
        · exact .refl _
        next hname =>
          have hname : isDeclarable (n.path.baseName ctx.rootName) = true := by
            rwa [Bool.not_eq_true', Bool.not_eq_false] at hname
          rw [hname, Bool.true_and, Bool.not_eq_true', Bool.not_eq_false] at hskipped
          rw [if_pos hskipped]
          exact .refl _

theorem remarks_branchTexts : ∀ (as : List Branch) (text : String),
    (branchTexts ctx as).outcome = .ok text → (remarks (branchTexts ctx as)).Perm
      ((declaredBelow ctx.rootName as).flatMap (branchRemarks ctx.options))
  | [], _, _ => .refl _
  | a :: rest, text, h => by
      obtain ⟨head, hhead, h, hremarks⟩ := remarks_bind h
      obtain ⟨others, hothers, -⟩ := outcome_bind_eq_ok.1 h
      rw [branchTexts, hremarks, remarks_bind_quiet fun _ => quiet_pure _, declaredBelow,
        List.flatMap_append]
      exact (remarks_branchText a head hhead).append (remarks_branchTexts rest others hothers)

end

/-! ### Trees -/

/-- The declarations of a tree report the marks that were cleared: in the block of each declared
branch the line of each method that is neither removed nor narrowed ends with a note on the names
that lost their marks, if there are any, and there is one warning for each such line, and no other
remark on members. At the top level there is neither a note nor a warning. -/
structure ReportsCleared (options : Options) (t : Tree) (text : String) : Prop where
  lines : ∀ b ∈ declaredBelowRoot t, ∃ r above methods, b.node.resolution = some r ∧
    HasBlock text ((contextOf options t).opening b.node r.record (scopeOf r.record b.children))
      (above ++ methods) ∧
    List.Forall₂ (fun m line => removal? m.deprecation = none →
      isNarrowed options r.record m = false →
        (declareParameters m.parameters).outcome = .ok (declaredOf m) ∧
          ∃ front, line = front ++ signature m ++ clearedNote (lostMarks m))
      r.record.methods methods
  remarks : (remarks (treeBody options t)).Perm
    ((declaredBelowRoot t).flatMap (branchRemarks options))
  top : ∃ r types, (t.nodeAt []).resolution = some r ∧
    text = linesText (globalLines r.record) ++ types

theorem DeclaresMethod.ends {scope : Scope} (h : DeclaresMethod options record scope pad m line)
    (hnarrowed : isNarrowed options record m = false) :
    (declareParameters m.parameters).outcome = .ok (declaredOf m) ∧
      ∃ front, line = front ++ signature m ++ clearedNote (lostMarks m) := by
  rw [DeclaresMethod, hnarrowed, if_neg Bool.false_ne_true] at h
  obtain ⟨hdeclared, hline⟩ := h
  refine ⟨hdeclared, ?_⟩
  cases hline with
  | plain =>
      exact ⟨pad ++ deprecatedMark m.deprecation ++ scope.functionWord,
        by simp only [String.append_assoc]⟩
  | skipped reason =>
      exact ⟨pad ++ "// Skip. " ++ reason ++ "\n" ++ pad ++ "//" ++ deprecatedMark m.deprecation ++
        scope.functionWord, by simp only [skippedLine, String.append_assoc]⟩

/-- Whatever is resolved in a tree and whatever the options are, cleared marks are reported for all
methods but those of the root. -/
theorem reportsCleared_treeBody {t : Tree} {text : String}
    (h : (treeBody options t).outcome = .ok text) : ReportsCleared options t text where
  lines b hb := by
    obtain ⟨r, hr, front, properties, middle, methods, -, hmethods, hblock⟩ :=
      treeBody_hasLines h hb
    refine ⟨r, front ++ properties ++ middle, methods, hr, hblock, ?_⟩
    exact hmethods.imp fun m line hline hremoval hnarrowed => (hline hremoval).ends hnarrowed
  remarks := by
    obtain ⟨_, -, h, hremarks⟩ := quiet_globalMembers.remarks_bind h
    obtain ⟨types, htypes, -⟩ := outcome_bind_eq_ok.1 h
    rw [treeBody, bodyText, hremarks, remarks_bind_quiet fun _ => quiet_pure _]
    have hbranches := remarks_branchTexts t.rootBranch.children types htypes
    exact hbranches
  top := treeBody_globalLines h

/-- A method with an optional parameter in front of one that has to be given. -/
def clearingMethod : Json :=
  .obj [("name", .str "f"), ("parameters", .arr [
    .obj [("name", .str "a"), ("type", .str "String"), ("optional", .bool true)],
    .obj [("name", .str "b"), ("type", .str "String")]])]

/-- Such a method of a class, of a namespace and of the root. -/
def clearingRecords : Fields :=
  [("Global", .obj [("name", .str "Global"), ("methods", .arr [clearingMethod])]),
    ("N", .obj [("name", .str "N"), ("methods", .arr [clearingMethod])]),
    ("N.C", .obj [("name", .str "N.C"), ("methods", .arr [clearingMethod])])]

/-- The tree of `clearingRecords`. -/
def clearingTree : Tree :=
  ⟨"Global", "",
    [⟨[], [("name", .str "Global"), ("methods", .arr [clearingMethod])], false, none⟩,
      ⟨["N"], [("name", .str "N"), ("methods", .arr [clearingMethod])], false, none⟩,
      ⟨["N", "C"], [("name", .str "N.C"), ("methods", .arr [clearingMethod])], false, none⟩],
    []⟩

theorem reportsCleared_treeBody_clearingRecords :
    (Tree.build (.obj clearingRecords) "Global").outcome = .ok clearingTree ∧
      ∃ text, (treeBody .standard (Exclusion.resolveAll clearingTree).tree).outcome = .ok text ∧
        ReportsCleared .standard (Exclusion.resolveAll clearingTree).tree text := by
  have hresolved := show Exclusion.resolveAll clearingTree = _ by cbv
  have hbranch := show (Exclusion.resolveAll clearingTree).tree.rootBranch = _ by cbv
  obtain ⟨text, htext⟩ : ∃ text,
      (treeBody .standard (Exclusion.resolveAll clearingTree).tree).outcome = .ok text := by
    rw [treeBody, hbranch, hresolved]
    exact ⟨_, rfl⟩
  exact ⟨by rfl, text, htext, reportsCleared_treeBody htext⟩

/-- The tree of such a method of the root alone. -/
def globalFunctionTree : Tree :=
  ⟨"Global", "",
    [⟨[], [("name", .str "Global"), ("methods", .arr [clearingMethod])], false, none⟩], []⟩

/-- A parameter of a function at the top level has lost its mark without a note and without a
warning. -/
theorem cleared_unreported_globalFunction :
    (Tree.build (.obj [("Global", .obj [("name", .str "Global"),
      ("methods", .arr [clearingMethod])])]) "Global").outcome = .ok globalFunctionTree ∧
    (∃ r m, ((Exclusion.resolveAll globalFunctionTree).tree.nodeAt []).resolution = some r ∧
      r.record.methods = [m] ∧ removal? m.deprecation = none ∧
        (lostMarks m).map Json.display = ["a"]) ∧
    (treeBody .standard (Exclusion.resolveAll globalFunctionTree).tree).outcome =
      .ok "declare function f(a: string, b: string): void;\n" ∧
    (treeBody .standard (Exclusion.resolveAll globalFunctionTree).tree).log = [] := by
  have hresolved := show Exclusion.resolveAll globalFunctionTree = _ by cbv
  have hbranch := show (Exclusion.resolveAll globalFunctionTree).tree.rootBranch = _ by cbv
  refine ⟨by rfl, ⟨_, _, by rw [hresolved]; rfl, rfl, rfl, ?_⟩, ?_, ?_⟩
  · decide +kernel
  · rw [treeBody, hbranch, hresolved]
    decide +kernel
  · rw [treeBody, hbranch, hresolved]
    decide +kernel

end Declaration

end ApiTypings
