import ApiTypings.Proofs.Declaration.Whole
import ApiTypings.Proofs.Namespace.Below

/-!
What a declaration file is composed of.

Below the lines of the root's members a file is nothing but blocks: comments in place of nodes that
cannot be declared, classes and interfaces, and namespaces around further blocks. Each branch has
its blocks, with their names, clauses and lines, and the text of a branch is its blocks written out.
So whatever class or interface a file opens for a node is one of these blocks, and they are told
exactly by the branches that are declared.
-/

namespace ApiTypings.Declaration

open Report

/-! ### Blocks -/

/-- A class or an interface, with the event types and the documentation in front of it. -/
structure TypeBlock where
  events : Option EventTypes
  doc : String
  kind : DeclarationKind
  name : String
  extended : Option String
  body : List String

/-- What is declared for a branch. -/
inductive Block where
  /-- A comment for a name that cannot be declared. -/
  | skipped (name : String)
  /-- A class or an interface. -/
  | type (d : TypeBlock)
  /-- A namespace, with its lines and the blocks in it. -/
  | nesting (name : String) (members : List String) (blocks : List Block)

/-- What opens a declaration at a depth. -/
def openingText (depth : Nat) (word name : String) : String :=
  indentation depth ++ (if depth = 0 then "declare " else "") ++ word ++ " " ++ name ++ " "

/-- The clause that names the extended type, if there is one. -/
def clauseText (extended : Option String) : String :=
  extended.elim "" fun target => "extends " ++ target ++ " "

def TypeBlock.text (depth : Nat) (d : TypeBlock) : String :=
  d.events.elim "" (fun e => Text.join "\n" e.declarations ++ "\n") ++ d.doc ++
    openingText depth d.kind.keyword d.name ++ clauseText d.extended ++ "\x7b\n" ++
    linesText d.body ++ indentation depth ++ "\x7d\n"

mutual

/-- A block as it is written at a depth. -/
def Block.text (depth : Nat) : Block → String
  | .skipped name => indentation depth ++ "// #Skip incorrect identifier \"" ++ name ++ "\";\n"
  | .type d => d.text depth
  | .nesting name members blocks =>
    openingText depth "namespace" name ++ "\x7b\n" ++ linesText members ++
      blocksText (depth + 1) blocks ++ indentation depth ++ "\x7d\n"

def blocksText (depth : Nat) : List Block → String
  | [] => ""
  | b :: rest => b.text depth ++ blocksText depth rest

end

mutual

/-- The classes and interfaces of a block below a path, each with its own path. -/
def Block.types (base : Path) : Block → List (Path × TypeBlock)
  | .skipped _ => []
  | .type d => [(base ++ [d.name], d)]
  | .nesting name _ blocks => typesOf (base ++ [name]) blocks

def typesOf (base : Path) : List Block → List (Path × TypeBlock)
  | [] => []
  | b :: rest => b.types base ++ typesOf base rest

end

theorem blocksText_append (depth : Nat) (as bs : List Block) :
    blocksText depth (as ++ bs) = blocksText depth as ++ blocksText depth bs := by
  induction as with
  | nil => simp [blocksText]
  | cons a rest ih => rw [List.cons_append, blocksText, ih, blocksText, String.append_assoc]

theorem typesOf_append (base : Path) (as bs : List Block) :
    typesOf base (as ++ bs) = typesOf base as ++ typesOf base bs := by
  induction as with
  | nil => rfl
  | cons a rest ih => rw [List.cons_append, typesOf, ih, typesOf, List.append_assoc]

/-! ### The blocks of a branch -/

/-- The class or the interface of a node. -/
def typeBlock (ctx : Context) (n : Node) (r : Resolution) : Report TypeBlock := do
  let pad := indentation n.path.depth
  let kind := ctx.declarationKind n r.record
  let methods ← Report.ofExcept (Json.comparableAll (r.record.methods.map (·.name)))
  let properties ← Report.ofExcept (Json.comparableAll (r.record.properties.map (·.name)))
  let events ← ctx.eventTypes n r.record pad (some (ctx.fullName n))
  let body ← classBody (pad ++ "\t") kind r methods properties (events.map (·.binding))
  pure {
    events := events
    doc := docComment pad r.record
    kind := kind
    name := ctx.baseName n
    extended := if ctx.options.writeInheritance then r.record.extends? else none
    body := body }

mutual

/-- The blocks of a branch. -/
def blocksOf (ctx : Context) : Branch → Report (List Block)
  | .fork n children =>
    if !isDeclarable (ctx.baseName n) then
      (fun _ => [.skipped (ctx.baseName n)]) <$> skippedNode ctx n
    else if (Branch.fork n children).isPlaceholder then pure []
    else do
      let r ← ctx.resolved n
      if r.record.kind.instantiable then
        let d ← typeBlock ctx n r
        if children.isEmpty then pure [.type d]
        else
          let blocks ← blocksOfAll ctx children
          pure [.type d, .nesting (ctx.baseName n) [] blocks]
      else if children.isEmpty then (fun d => [.type d]) <$> typeBlock ctx n r
      else
        let blocks ← blocksOfAll ctx children
        let members ← namespaceMembers ctx n (indentation n.path.depth ++ "\t") r
        pure [.nesting (ctx.baseName n) members blocks]

/-- The blocks of several branches, one after another. -/
def blocksOfAll (ctx : Context) : List Branch → Report (List Block)
  | [] => pure []
  | b :: rest => do
    let blocks ← blocksOf ctx b
    let others ← blocksOfAll ctx rest
    pure (blocks ++ others)

end

/-! ### Branches of a tree -/

mutual

/-- A branch whose paths lead on from a base one segment at a time. -/
def Pathed (base : Path) : Branch → Prop
  | .fork n children => (∃ s, n.path = base ++ [s]) ∧ AllPathed n.path children

def AllPathed (base : Path) : List Branch → Prop
  | [] => True
  | b :: rest => Pathed base b ∧ AllPathed base rest

end

theorem allPathed_iff {base : Path} {bs : List Branch} :
    AllPathed base bs ↔ ∀ b ∈ bs, Pathed base b := by
  induction bs with
  | nil => simp [AllPathed]
  | cons b rest ih => rw [AllPathed, ih, List.forall_mem_cons]

section Writing

variable {ctx : Context} {n : Node} {base : Path} {s : String}

theorem depth_concat (hpath : n.path = base ++ [s]) : n.path.depth = base.length := by
  rw [hpath, Path.depth, List.length_append, List.length_singleton, Nat.add_sub_cancel]

theorem declareWord_concat (hpath : n.path = base ++ [s]) :
    declareWord n.path = if base.length = 0 then "declare " else "" := by
  rw [hpath, declareWord, Path.inGlobal, List.length_append, List.length_singleton]
  simp

theorem length_concat (hpath : n.path = base ++ [s]) : n.path.length = base.length + 1 := by
  rw [hpath, List.length_append, List.length_singleton]

theorem extendsClause_eq (ctx : Context) (record : TypeRecord) :
    extendsClause ctx record =
      clauseText (if ctx.options.writeInheritance then record.extends? else none) := by
  unfold extendsClause
  cases ctx.options.writeInheritance <;> cases record.extends? <;> rfl

/-! ### Texts are blocks written out -/

theorem classText_eq (hpath : n.path = base ++ [s]) (r : Resolution) :
    classText ctx n r = TypeBlock.text base.length <$> typeBlock ctx n r := by
  rw [classText, typeBlock]
  simp only [map_bind, map_pure]
  refine bind_congr fun methods => bind_congr fun properties => bind_congr fun events =>
    bind_congr fun body => congrArg pure ?_
  rw [extendsClause_eq, depth_concat hpath, declareWord_concat hpath]
  cases events <;> simp only [TypeBlock.text, openingText, Option.elim, String.append_assoc,
    String.empty_append]

theorem namespaceText_eq_nesting (hpath : n.path = base ++ [s]) (members : List String)
    (blocks : List Block) :
    namespaceText ctx n members (blocksText (base.length + 1) blocks) =
      (Block.nesting (ctx.baseName n) members blocks).text base.length := by
  have hword : "namespace " = "namespace" ++ " " := rfl
  have hbrace : " \x7b\n" = " " ++ "\x7b\n" := rfl
  rw [namespaceText, Block.text, depth_concat hpath, declareWord_concat hpath]
  simp only [openingText, hword, hbrace, String.append_assoc]

theorem skippedNode_eq (hpath : n.path = base ++ [s]) :
    skippedNode ctx n =
      (fun _ => (Block.skipped (ctx.baseName n)).text base.length) <$> skippedNode ctx n := by
  rw [skippedNode, depth_concat hpath]
  simp only [map_bind, map_pure, Block.text]

mutual

/-- The text of a branch is its blocks, written out. -/
theorem branchText_eq : ∀ (b : Branch) (base : Path), Pathed base b →
    branchText ctx b = blocksText base.length <$> blocksOf ctx b
  | .fork n children, base, ⟨⟨s, hpath⟩, hchildren⟩ => by
      have hnested := branchTexts_eq children n.path hchildren
      rw [length_concat hpath] at hnested
      have hone (d : TypeBlock) : blocksText base.length [.type d] = d.text base.length := by
        rw [blocksText, blocksText, Block.text, String.append_empty]
      rw [branchText, blocksOf]
      split
      · rw [skippedNode_eq hpath, Functor.map_map]
        simp [blocksText]
      split
      · simp [blocksText]
      simp only [map_bind]
      refine bind_congr fun r => ?_
      split
      · rw [classText_eq hpath, bind_map_left, map_bind]
        refine bind_congr fun d => ?_
        split
        · rw [map_pure, hone]
        · rw [hnested, bind_map_left, map_bind]
          refine bind_congr fun blocks => ?_
          rw [map_pure, namespaceText_eq_nesting hpath]
          simp [blocksText, Block.text]
      split
      · rw [classText_eq hpath, Functor.map_map]
        simp only [hone]
      · rw [hnested, bind_map_left, map_bind]
        refine bind_congr fun blocks => ?_
        rw [map_bind]
        refine bind_congr fun members => ?_
        rw [map_pure, namespaceText_eq_nesting hpath]
        simp [blocksText]

theorem branchTexts_eq : ∀ (bs : List Branch) (base : Path), AllPathed base bs →
    branchTexts ctx bs = blocksText base.length <$> blocksOfAll ctx bs
  | [], base, _ => by simp [branchTexts, blocksOfAll, blocksText]
  | b :: rest, base, ⟨hb, hrest⟩ => by
      rw [branchTexts, blocksOfAll, branchText_eq b base hb, branchTexts_eq rest base hrest]
      simp only [map_bind, bind_map_left, map_pure, blocksText_append]

end

end Writing

/-! ### The types among the blocks -/

section Types

variable {ctx : Context} {n : Node} {base p : Path} {s : String} {r : Resolution}
  {children : List Branch} {d d' : TypeBlock}

theorem concat_baseName (hpath : n.path = base ++ [s]) : base ++ [ctx.baseName n] = n.path := by
  rw [Context.baseName, hpath, Path.baseName, List.getLast?_concat, Option.getD_some]

/-- A class or an interface is that of a branch: the branch is declared as one. -/
def IsTypeOf (ctx : Context) (b : Branch) (d : TypeBlock) : Prop :=
  ∃ r, b.node.resolution = some r ∧ scopeOf r.record b.children = .type ∧
    (typeBlock ctx b.node r).outcome = .ok d

theorem isTypeOf_iff (hr : n.resolution = some r) (htype : scopeOf r.record children = .type)
    (hd : (typeBlock ctx n r).outcome = .ok d) : IsTypeOf ctx (.fork n children) d' ↔ d' = d := by
  constructor
  · rintro ⟨r', hr', -, hd'⟩
    obtain rfl := Option.some.inj (hr.symm.trans hr')
    exact Except.ok.inj (hd'.symm.trans hd)
  · rintro rfl
    exact ⟨r, hr, htype, hd⟩

theorem not_isTypeOf (hr : n.resolution = some r) (hblock : scopeOf r.record children = .block) :
    ¬ IsTypeOf ctx (.fork n children) d := by
  rintro ⟨r', hr', htype, -⟩
  obtain rfl := Option.some.inj (hr.symm.trans hr')
  cases hblock.symm.trans htype

/-- What a class or an interface is written with. -/
theorem typeBlock_eq_ok (h : (typeBlock ctx n r).outcome = .ok d) :
    d.name = ctx.baseName n ∧ d.kind = ctx.declarationKind n r.record ∧
      d.extended = if ctx.options.writeInheritance then r.record.extends? else none := by
  obtain ⟨methods, -, h⟩ := outcome_bind_eq_ok.1 h
  obtain ⟨properties, -, h⟩ := outcome_bind_eq_ok.1 h
  obtain ⟨events, -, h⟩ := outcome_bind_eq_ok.1 h
  obtain ⟨body, -, h⟩ := outcome_bind_eq_ok.1 h
  obtain rfl := Except.ok.inj h
  exact ⟨rfl, rfl, rfl⟩

theorem outcome_map_eq_ok {α β : Type} {f : α → β} {x : Report α} {b : β} :
    (f <$> x).outcome = .ok b ↔ ∃ a, x.outcome = .ok a ∧ f a = b := by
  rw [map_eq_pure_bind, outcome_bind_eq_ok]
  simp only [outcome_pure, Except.ok.injEq]

/-- A node that has a text as a class or an interface has a block as one. -/
theorem BranchText.exists_typeBlock {own : String} (hpath : n.path = base ++ [s])
    (htype : scopeOf r.record children = .type) (h : BranchText ctx n children r own) :
    ∃ d, (typeBlock ctx n r).outcome = .ok d := by
  have hclass {text : String} (hown : (classText ctx n r).outcome = .ok text) :
      ∃ d, (typeBlock ctx n r).outcome = .ok d := by
    rw [classText_eq hpath] at hown
    obtain ⟨d, hd, -⟩ := outcome_map_eq_ok.1 hown
    exact ⟨d, hd⟩
  cases h with
  | type _ hown => exact hclass hown
  | both _ _ hown _ => exact hclass hown
  | block hkind hsome _ _ => simp [scopeOf, hkind, hsome] at htype

/-- The blocks of a node that is declared: a class or an interface, with a namespace behind it for
the children if there are any, or a namespace which has the members as well. -/
inductive BranchBlocks (ctx : Context) (n : Node) (children : List Branch) (r : Resolution) :
    List Block → Prop
  | type {d : TypeBlock} (hnone : children.isEmpty = true)
      (hd : (typeBlock ctx n r).outcome = .ok d) : BranchBlocks ctx n children r [.type d]
  | both {d : TypeBlock} {nested : List Block} (hkind : r.record.kind.instantiable = true)
      (hd : (typeBlock ctx n r).outcome = .ok d)
      (hnested : (blocksOfAll ctx children).outcome = .ok nested) :
      BranchBlocks ctx n children r [.type d, .nesting (ctx.baseName n) [] nested]
  | block {members : List String} {nested : List Block}
      (hkind : r.record.kind.instantiable = false) (hsome : children.isEmpty = false)
      (hnested : (blocksOfAll ctx children).outcome = .ok nested) :
      BranchBlocks ctx n children r [.nesting (ctx.baseName n) members nested]

theorem blocksOf_of_declared {blocks : List Block} (hname : isDeclarable (ctx.baseName n) = true)
    (hfull : (Branch.fork n children).isPlaceholder = false)
    (h : (blocksOf ctx (.fork n children)).outcome = .ok blocks) :
    ∃ r, n.resolution = some r ∧ BranchBlocks ctx n children r blocks := by
  rw [blocksOf, if_neg (by simp [hname]), if_neg (by simp [hfull])] at h
  obtain ⟨r, hr, h⟩ := outcome_bind_eq_ok.1 h
  refine ⟨r, resolution_of_resolved hr, ?_⟩
  by_cases hkind : r.record.kind.instantiable
  · rw [if_pos hkind] at h
    obtain ⟨d, hd, h⟩ := outcome_bind_eq_ok.1 h
    split at h
    next hnone =>
      obtain rfl := Except.ok.inj h
      exact .type hnone hd
    next =>
      obtain ⟨nested, hnested, h⟩ := outcome_bind_eq_ok.1 h
      obtain rfl := Except.ok.inj h
      exact .both hkind hd hnested
  · rw [if_neg hkind] at h
    split at h
    next hnone =>
      obtain ⟨d, hd, rfl⟩ := outcome_map_eq_ok.1 h
      exact .type hnone hd
    next hsome =>
      obtain ⟨nested, hnested, h⟩ := outcome_bind_eq_ok.1 h
      obtain ⟨members, -, h⟩ := outcome_bind_eq_ok.1 h
      obtain rfl := Except.ok.inj h
      exact .block (Bool.eq_false_iff.2 hkind) (Bool.eq_false_iff.2 hsome) hnested

mutual

/-- The classes and interfaces among the blocks of a branch are those of the branches that are
declared as one. -/
theorem mem_types_blocksOf : ∀ (b : Branch) (base : Path) (blocks : List Block), Pathed base b →
    (blocksOf ctx b).outcome = .ok blocks → ∀ p d, (p, d) ∈ typesOf base blocks ↔
      ∃ a ∈ declaredBranches ctx.rootName b, a.node.path = p ∧ IsTypeOf ctx a d
  | .fork n children, base, blocks, ⟨⟨s, hpath⟩, hchildren⟩, h, p, d' => by
      have hbase : n.path.baseName ctx.rootName = ctx.baseName n := rfl
      rw [declaredBranches, hbase]
      by_cases hname : isDeclarable (ctx.baseName n) = true
      swap
      · rw [blocksOf, if_pos (by simpa using hname)] at h
        obtain ⟨_, -, rfl⟩ := outcome_map_eq_ok.1 h
        simp [typesOf, Block.types, hname]
      by_cases hfull : (Branch.fork n children).isPlaceholder = false
      swap
      · rw [blocksOf, if_neg (by simpa using hname), if_pos (by simpa using hfull)] at h
        obtain rfl := Except.ok.inj h
        simp [typesOf, hfull]
      obtain ⟨r, hr, hblocks⟩ := blocksOf_of_declared hname hfull h
      rw [if_pos (by simp [hname, hfull])]
      simp only [List.exists_mem_cons_iff]
      have hpath' : base ++ [ctx.baseName n] = n.path := concat_baseName hpath
      cases hblocks with
      | @type d hnone hd =>
        obtain rfl := List.isEmpty_iff.1 hnone
        rw [isTypeOf_iff hr (if_pos (.inr hnone)) hd]
        simp [typesOf, Block.types, declaredBelow, Branch.node, (typeBlock_eq_ok hd).1, hpath',
          eq_comm]
      | @both d nested hkind hd hnested =>
        rw [isTypeOf_iff hr (if_pos (.inl hkind)) hd,
          ← mem_types_blocksOfAll children n.path nested hchildren hnested]
        simp [typesOf, Block.types, Branch.node, (typeBlock_eq_ok hd).1, hpath', eq_comm]
      | @block members nested hkind hsome hnested =>
        have hblock : scopeOf r.record children = .block := if_neg (by simp [hkind, hsome])
        rw [← mem_types_blocksOfAll children n.path nested hchildren hnested]
        simp [typesOf, Block.types, not_isTypeOf hr hblock, hpath']

theorem mem_types_blocksOfAll : ∀ (bs : List Branch) (base : Path) (blocks : List Block),
    AllPathed base bs → (blocksOfAll ctx bs).outcome = .ok blocks → ∀ p d,
      (p, d) ∈ typesOf base blocks ↔
        ∃ a ∈ declaredBelow ctx.rootName bs, a.node.path = p ∧ IsTypeOf ctx a d
  | [], _, _, _, h, _, _ => by
      obtain rfl := Except.ok.inj h
      simp [typesOf, declaredBelow]
  | b :: rest, base, blocks, ⟨hb, hrest⟩, h, p, d => by
      obtain ⟨head, hhead, h⟩ := outcome_bind_eq_ok.1 h
      obtain ⟨others, hothers, h⟩ := outcome_bind_eq_ok.1 h
      obtain rfl := Except.ok.inj h
      rw [typesOf_append, List.mem_append, mem_types_blocksOf b base head hb hhead,
        mem_types_blocksOfAll rest base others hrest hothers, declaredBelow]
      simp only [List.mem_append, or_and_right, exists_or]

end

end Types

end ApiTypings.Declaration
