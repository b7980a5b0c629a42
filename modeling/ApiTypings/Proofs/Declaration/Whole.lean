import ApiTypings.Proofs.Declaration.Line

/-!
The lines of a tree.

What is declared of a tree are the members of the root and the branches below it, except for those
that are left out. The block of each declared branch has a text for each member that is left, in
order, and each of these texts declares its member.
-/

namespace ApiTypings.Declaration

open Report

variable {ctx : Context} {n : Node} {r : Resolution} {scope : Scope} {pad : String} {m : Method}

/-! ### Line for line -/

/-- The block of a node has a text for each of its members, in order, which declares the member if
it was not removed. -/
def HasLines (ctx : Context) (n : Node) (r : Resolution) (scope : Scope) (text : String) : Prop :=
  ∃ front properties middle methods,
    List.Forall₂ (fun p line => removal? p.deprecation = none →
      DeclaresProperty scope (indentation n.path.depth ++ "\t") p line)
        r.record.properties properties ∧
    List.Forall₂ (fun m line => removal? m.deprecation = none →
      DeclaresMethod ctx.options r.record scope (indentation n.path.depth ++ "\t") m line)
        r.record.methods methods ∧
    HasBlock text (ctx.opening n r.record scope) (front ++ properties ++ middle ++ methods)

section Lines

variable {lines : List String} {binding : Option EventBinding} {text : String}

theorem exists_front_memberSection (pad heading : String) (excluded lines : List String) :
    ∃ front, memberSection pad heading excluded lines = front ++ lines := by
  unfold memberSection
  split
  next hnone => exact ⟨[], by rw [List.isEmpty_iff.1 hnone]; rfl⟩
  · exact ⟨_, rfl⟩

theorem properties_declare (scope : Scope) (optional : Bool) {ps : List Property}
    (h : List.Forall₂ (fun p line =>
      (scope.propertyText pad r.record p optional).outcome = .ok line) ps lines) :
    List.Forall₂ (fun p line => removal? p.deprecation = none → DeclaresProperty scope pad p line)
      ps lines :=
  h.imp fun _ _ hline hremoval => propertyText_declares hremoval hline

theorem methods_declare (scope : Scope) {options : Options} {ms : List Method}
    (hbinding : binding.isSome = narrows options r.record)
    (h : List.Forall₂ (fun m line =>
      (scope.methodText pad r.record m binding).outcome = .ok line) ms lines) :
    List.Forall₂ (fun m line => removal? m.deprecation = none →
      DeclaresMethod options r.record scope pad m line) ms lines :=
  h.imp fun _ _ hline hremoval => methodText_declares hremoval hbinding hline

theorem classText_hasLines (h : (classText ctx n r).outcome = .ok text) :
    HasLines ctx n r .type text := by
  obtain ⟨events, body, front, hevents, hbody, rfl⟩ := classText_eq_ok h
  have hbinding := isSome_eventTypes hevents
  obtain ⟨properties, hproperties, hbody⟩ := outcome_bind_eq_ok.1 hbody
  obtain ⟨methods, hmethods, hbody⟩ := outcome_bind_eq_ok.1 hbody
  obtain rfl := Except.ok.inj hbody
  obtain ⟨above, habove⟩ := exists_front_memberSection (indentation n.path.depth ++ "\t")
    (r.record.name ++ " properties") r.excluded.properties properties
  obtain ⟨between, hbetween⟩ := exists_front_memberSection (indentation n.path.depth ++ "\t")
    (r.record.name ++ " methods") r.excluded.methods methods
  refine ⟨constructorLines (indentation n.path.depth ++ "\t") (ctx.declarationKind n r.record)
    r.record ++ above, properties, between, methods,
    properties_declare .type _ (outcome_each_eq_ok.1 hproperties),
    methods_declare .type hbinding (outcome_each_eq_ok.1 hmethods),
    front, extendsClause ctx r.record, indentation n.path.depth ++ "\x7d\n", ?_⟩
  rw [habove, hbetween]
  simp only [List.append_assoc]

theorem namespaceProperties_declare (h : (namespaceProperties pad r).outcome = .ok lines) :
    ∃ front properties, lines = front ++ properties ∧
      List.Forall₂ (fun p line => removal? p.deprecation = none →
        DeclaresProperty .block pad p line) r.record.properties properties := by
  unfold namespaceProperties at h
  split at h
  next hnone =>
    obtain rfl := Except.ok.inj h
    rw [List.isEmpty_iff.1 hnone]
    exact ⟨[], [], rfl, .nil⟩
  next hsome =>
    obtain ⟨names, hnames, h⟩ := outcome_bind_eq_ok.1 h
    obtain rfl := keysOf_methods hnames
    obtain ⟨properties, hproperties, hlines⟩ := outcome_bind_eq_ok.1 h
    obtain rfl := Except.ok.inj hlines
    exact ⟨_, properties, rfl,
      properties_declare .block false (outcome_each_eq_ok.1 hproperties)⟩

theorem namespaceMethods_declare {options : Options}
    (hbinding : binding.isSome = narrows options r.record)
    (h : (namespaceMethods pad r binding).outcome = .ok lines) :
    ∃ front methods, lines = front ++ methods ∧
      List.Forall₂ (fun m line => removal? m.deprecation = none →
        DeclaresMethod options r.record .block pad m line) r.record.methods methods := by
  unfold namespaceMethods at h
  split at h
  next hnone =>
    obtain rfl := Except.ok.inj h
    rw [List.isEmpty_iff.1 hnone]
    exact ⟨[], [], rfl, .nil⟩
  next hsome =>
    obtain ⟨names, hnames, h⟩ := outcome_bind_eq_ok.1 h
    obtain rfl := keysOf_properties hnames
    obtain ⟨methods, hmethods, hlines⟩ := outcome_bind_eq_ok.1 h
    obtain rfl := Except.ok.inj hlines
    exact ⟨_, methods, rfl,
      methods_declare .block hbinding (outcome_each_eq_ok.1 hmethods)⟩

theorem namespaceText_hasLines {members : List String} (children : String)
    (h : (namespaceMembers ctx n (indentation n.path.depth ++ "\t") r).outcome = .ok members) :
    HasLines ctx n r .block (namespaceText ctx n members children) := by
  obtain ⟨events, hevents, h⟩ := outcome_bind_eq_ok.1 h
  obtain ⟨properties, hproperties, h⟩ := outcome_bind_eq_ok.1 h
  obtain ⟨methods, hmethods, h⟩ := outcome_bind_eq_ok.1 h
  obtain rfl := Except.ok.inj h
  have hbinding := isSome_eventTypes hevents
  obtain ⟨above, properties, rfl, hdeclared⟩ := namespaceProperties_declare hproperties
  obtain ⟨between, methods, rfl, hdefined⟩ := namespaceMethods_declare hbinding hmethods
  refine ⟨(events.map (·.declarations)).getD [] ++ above, properties, between, methods,
    hdeclared, hdefined, "", "", children ++ (indentation n.path.depth ++ "\x7d\n"), ?_⟩
  rw [namespaceText_eq (r := r), String.empty_append, String.append_empty]
  simp only [List.append_assoc]

end Lines

/-! ### Declared branches -/

mutual

/-- The branches of a branch that are declared, each before those below it: those whose names cannot
be declared and those of placeholders are left out, with all that is below them. -/
def declaredBranches (rootName : String) : Branch → List Branch
  | .fork n children =>
    if isDeclarable (n.path.baseName rootName) && !(Branch.fork n children).isPlaceholder then
      .fork n children :: declaredBelow rootName children
    else []

def declaredBelow (rootName : String) : List Branch → List Branch
  | [] => []
  | b :: rest => declaredBranches rootName b ++ declaredBelow rootName rest

end

/-- A text stands somewhere in another one. -/
def Within (part whole : String) : Prop := ∃ front back, whole = front ++ part ++ back

section Within

variable {part whole more : String}

theorem Within.refl (text : String) : Within text text :=
  ⟨"", "", by rw [String.empty_append, String.append_empty]⟩

theorem Within.trans (h : Within part whole) (h' : Within whole more) : Within part more := by
  obtain ⟨front, back, rfl⟩ := h
  obtain ⟨above, below, rfl⟩ := h'
  exact ⟨above ++ front, back ++ below, by simp only [String.append_assoc]⟩

theorem Within.append (h : Within part whole) (below : String) : Within part (whole ++ below) :=
  h.trans ⟨"", below, by rw [String.empty_append]⟩

theorem Within.prepend (h : Within part whole) (above : String) : Within part (above ++ whole) :=
  h.trans ⟨above, "", by rw [String.append_empty]⟩

end Within

section Branches

variable {b : Branch} {children : List Branch} {text : String}

theorem HasBlock.within {whole opening : String} {lines : List String}
    (h : HasBlock text opening lines) (hwithin : Within text whole) :
    HasBlock whole opening lines := by
  obtain ⟨front, clause, back, rfl⟩ := h
  obtain ⟨above, below, rfl⟩ := hwithin
  exact ⟨above ++ front, clause, back ++ below, by simp only [String.append_assoc]⟩

theorem HasLines.within {whole : String} (h : HasLines ctx n r scope text)
    (hwithin : Within text whole) : HasLines ctx n r scope whole := by
  obtain ⟨front, properties, middle, methods, hproperties, hmethods, hblock⟩ := h
  exact ⟨front, properties, middle, methods, hproperties, hmethods, hblock.within hwithin⟩

/-- The text of the children stands in that of a namespace. -/
theorem within_namespaceText (members : List String) (nested : String) :
    Within nested (namespaceText ctx n members nested) :=
  (((Within.refl nested).prepend _).append _).append _

theorem BranchText.hasLines (h : BranchText ctx n children r text) :
    HasLines ctx n r (scopeOf r.record children) text := by
  cases h with
  | type hnone hown =>
      rw [scopeOf, if_pos (.inr hnone)]
      exact classText_hasLines hown
  | both hkind hsome hown hnested =>
      rw [scopeOf, if_pos (.inl hkind)]
      exact (classText_hasLines hown).within ((Within.refl _).append _)
  | block hkind hsome hmembers hnested =>
      rw [scopeOf, if_neg (by simp [hkind, hsome])]
      exact namespaceText_hasLines _ hmembers

/-- The texts of the children, if there are any, are nested in a namespace. -/
theorem BranchText.nested (h : BranchText ctx n children r text) (hsome : children ≠ []) :
    ∃ members nested, (branchTexts ctx children).outcome = .ok nested ∧
      Within (namespaceText ctx n members nested) text := by
  cases h with
  | type hnone hown => exact absurd (List.isEmpty_iff.1 hnone) hsome
  | both hkind _ hown hnested => exact ⟨[], _, hnested, (Within.refl _).prepend _⟩
  | block hkind _ hmembers hnested => exact ⟨_, _, hnested, .refl _⟩

mutual

/-- The text of each branch that is declared stands in the whole text. -/
theorem branchText_within : ∀ (a : Branch) (text : String),
    (branchText ctx a).outcome = .ok text → ∀ b ∈ declaredBranches ctx.rootName a,
      ∃ r own, b.node.resolution = some r ∧ BranchText ctx b.node b.children r own ∧
        Within own text
  | .fork n children, text, h, b, hb => by
      rw [declaredBranches] at hb
      split at hb
      next hdeclared =>
        obtain ⟨hname, hfull⟩ := Bool.and_eq_true_iff.1 hdeclared
        obtain ⟨r, hr, htext⟩ := branchText_of_declared hname (by simpa using hfull) h
        rcases List.mem_cons.1 hb with rfl | hb
        · exact ⟨r, text, hr, htext, .refl text⟩
        · have hsome : children ≠ [] := by
            rintro rfl
            cases hb
          obtain ⟨members, nested, hnested, hwithin⟩ := htext.nested hsome
          obtain ⟨r', own, hr', hown, hinner⟩ := branchTexts_within children nested hnested b hb
          exact ⟨r', own, hr', hown, (hinner.trans (within_namespaceText _ _)).trans hwithin⟩
      next => cases hb

theorem branchTexts_within : ∀ (as : List Branch) (text : String),
    (branchTexts ctx as).outcome = .ok text → ∀ b ∈ declaredBelow ctx.rootName as,
      ∃ r own, b.node.resolution = some r ∧ BranchText ctx b.node b.children r own ∧
        Within own text
  | [], _, _, _, hb => by cases hb
  | a :: rest, text, h, b, hb => by
      obtain ⟨head, hhead, h⟩ := outcome_bind_eq_ok.1 h
      obtain ⟨others, hothers, h⟩ := outcome_bind_eq_ok.1 h
      obtain rfl := Except.ok.inj h
      rcases List.mem_append.1 hb with hb | hb
      · obtain ⟨r, own, hr, hown, hwithin⟩ := branchText_within a head hhead b hb
        exact ⟨r, own, hr, hown, hwithin.append _⟩
      · obtain ⟨r, own, hr, hown, hwithin⟩ := branchTexts_within rest others hothers b hb
        exact ⟨r, own, hr, hown, hwithin.prepend _⟩

end

end Branches

/-! ### The whole tree -/

/-- The lines of the root's members at the top level: no marker, and no note. -/
def globalLines (record : TypeRecord) : List String :=
  (record.properties.filter fun p => (removal? p.deprecation).isNone).map
      (fun p => "declare " ++ variableDeclaration p) ++
    (record.methods.filter fun m => (removal? m.deprecation).isNone).map
      (fun m => "declare function " ++ signature m)

/-- The branches of a tree that are declared. -/
def declaredBelowRoot (t : Tree) : List Branch := declaredBelow t.rootName t.rootBranch.children

/-- If each element that is left has one line, and any other none, those of all elements are those
of the elements that are left. -/
theorem flatten_of_live {α : Type} {f : α → Report (List String)} {live : α → Bool}
    {g : α → String} {as : List α} {bs : List (List String)}
    (hf : ∀ a lines, (f a).outcome = .ok lines → lines = if live a then [g a] else [])
    (h : (each f as).outcome = .ok bs) : bs.flatten = (as.filter live).map g := by
  have hlines := outcome_each_eq_ok.1 h
  clear h
  induction hlines with
  | nil => rfl
  | @cons a lines rest others hhead _ ih =>
      rw [List.flatten_cons, hf a lines hhead, ih, List.filter_cons]
      cases live a <;> rfl

theorem globalProperty_eq_ok {p : Property} {lines : List String}
    (h : (globalProperty p).outcome = .ok lines) : lines =
      if (removal? p.deprecation).isNone then ["declare " ++ variableDeclaration p] else [] := by
  unfold globalProperty at h
  split at h
  next hremoved =>
    rw [hremoved]
    exact (Except.ok.inj h).symm
  next hlive =>
    obtain ⟨type, htype, h⟩ := outcome_bind_eq_ok.1 h
    obtain rfl := Except.ok.inj htype
    obtain rfl := Except.ok.inj h
    simp only [hlive, Option.isNone_none, if_true, variableDeclaration, String.append_assoc]

theorem globalMethod_eq_ok {lines : List String} (h : (globalMethod m).outcome = .ok lines) :
    lines = if (removal? m.deprecation).isNone then ["declare function " ++ signature m]
      else [] := by
  unfold globalMethod at h
  split at h
  next hremoved =>
    rw [hremoved]
    exact (Except.ok.inj h).symm
  next hlive =>
    obtain ⟨declared, hdeclared, h⟩ := outcome_bind_eq_ok.1 h
    obtain ⟨returns, hreturns, h⟩ := outcome_bind_eq_ok.1 h
    obtain rfl := Except.ok.inj hreturns
    obtain rfl := Except.ok.inj h
    simp only [hlive, Option.isNone_none, if_true, signature, declaredOf_eq hdeclared,
      String.append_assoc]

/-- The declarations of a tree are those of the root's members and those of the branches below. -/
theorem treeBody_eq_ok {options : Options} {t : Tree} {text : String}
    (h : (treeBody options t).outcome = .ok text) :
    ∃ r types, (t.nodeAt []).resolution = some r ∧
      (branchTexts (contextOf options t) t.rootBranch.children).outcome = .ok types ∧
      text = linesText (globalLines r.record) ++ types := by
  obtain ⟨members, hmembers, h⟩ := outcome_bind_eq_ok.1 h
  obtain ⟨types, htypes, h⟩ := outcome_bind_eq_ok.1 h
  obtain rfl := Except.ok.inj h
  obtain ⟨r, hr, hmembers⟩ := outcome_bind_eq_ok.1 hmembers
  obtain ⟨properties, hproperties, hmembers⟩ := outcome_bind_eq_ok.1 hmembers
  obtain ⟨methods, hmethods, hmembers⟩ := outcome_bind_eq_ok.1 hmembers
  obtain rfl := Except.ok.inj hmembers
  refine ⟨r, types, ?_, htypes, ?_⟩
  · rw [Tree.rootBranch, Tree.branch_eq] at hr
    exact resolution_of_resolved hr
  · rw [flatten_of_live (fun _ _ => globalProperty_eq_ok) hproperties,
      flatten_of_live (fun _ _ => globalMethod_eq_ok) hmethods, globalLines]

/-- The declarations of a tree begin with the lines of the root's members. -/
theorem treeBody_globalLines {options : Options} {t : Tree} {text : String}
    (h : (treeBody options t).outcome = .ok text) :
    ∃ r types, (t.nodeAt []).resolution = some r ∧
      text = linesText (globalLines r.record) ++ types := by
  obtain ⟨r, types, hr, -, htext⟩ := treeBody_eq_ok h
  exact ⟨r, types, hr, htext⟩

/-- The text of each declared branch of a tree stands in the declarations of the tree. -/
theorem treeBody_within {options : Options} {t : Tree} {text : String}
    (h : (treeBody options t).outcome = .ok text) {b : Branch} (hb : b ∈ declaredBelowRoot t) :
    ∃ r own, b.node.resolution = some r ∧
      BranchText (contextOf options t) b.node b.children r own ∧ Within own text := by
  obtain ⟨root, types, -, htypes, rfl⟩ := treeBody_eq_ok h
  have hbranches := branchTexts_within _ types htypes b hb
  obtain ⟨r, own, hr, hown, hwithin⟩ := hbranches
  exact ⟨r, own, hr, hown, hwithin.prepend _⟩

/-- Each declared branch of a tree is declared with all its lines. -/
theorem treeBody_hasLines {options : Options} {t : Tree} {text : String}
    (h : (treeBody options t).outcome = .ok text) {b : Branch} (hb : b ∈ declaredBelowRoot t) :
    ∃ r, b.node.resolution = some r ∧
      HasLines (contextOf options t) b.node r (scopeOf r.record b.children) text := by
  obtain ⟨r, own, hr, hown, hwithin⟩ := treeBody_within h hb
  exact ⟨r, hr, hown.hasLines.within hwithin⟩

end ApiTypings.Declaration
