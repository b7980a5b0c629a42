import ApiTypings.Proofs.Declaration.Stages

/-!
Placeholders in declarations.

A type may extend one that has no record. The nodes made for such a target hold nothing and are not
declared themselves, yet they are children of other nodes, and two decisions are taken before they
are recognised: a segment that cannot be declared is replaced by a comment, and a node is declared
as a namespace if it has any children at all. `Branch.hidesPlaceholders` says that neither of the
two comes about. Then the declarations are those of the tree without its placeholders; where it does
not hold they can be others.
-/

namespace ApiTypings

open Exclusion Declaration

namespace Branch

mutual

/-- A branch without the placeholders below its node. -/
def pruned : Branch → Branch
  | .fork n bs => .fork n (prunedAll bs)

def prunedAll : List Branch → List Branch
  | [] => []
  | b :: rest => if b.isPlaceholder then prunedAll rest else pruned b :: prunedAll rest

end

mutual

/-- Whether a branch is declared as if the placeholders in it were not there: a placeholder has a
name that can be declared, and a node that is declared has no children or one that is no
placeholder. What is not declared is not looked at. -/
def hidesPlaceholders (rootName : String) : Branch → Bool
  | .fork n bs =>
    if isDeclarable (n.path.baseName rootName) then
      (Branch.fork n bs).isPlaceholder ||
        ((bs.isEmpty || !arePlaceholders bs) && allHidePlaceholders rootName bs)
    else !(Branch.fork n bs).isPlaceholder

def allHidePlaceholders (rootName : String) : List Branch → Bool
  | [] => true
  | b :: rest => hidesPlaceholders rootName b && allHidePlaceholders rootName rest

end

/-! ### The shape of what is left -/

@[simp] theorem node_pruned (b : Branch) : b.pruned.node = b.node := by
  cases b
  rfl

@[simp] theorem children_pruned (b : Branch) : b.pruned.children = prunedAll b.children := by
  cases b
  rfl

theorem prunedAll_eq_nil {bs : List Branch} : prunedAll bs = [] ↔ arePlaceholders bs = true := by
  induction bs with
  | nil => simp [prunedAll, arePlaceholders]
  | cons b rest ih =>
      rw [prunedAll, arePlaceholders]
      by_cases hb : b.isPlaceholder = true
      · simp [hb, ih]
      · simp [hb]

mutual

theorem isPlaceholder_pruned : ∀ b : Branch, b.pruned.isPlaceholder = b.isPlaceholder
  | .fork n bs => by rw [pruned, isPlaceholder, isPlaceholder, arePlaceholders_prunedAll bs]

theorem arePlaceholders_prunedAll :
    ∀ bs : List Branch, arePlaceholders (prunedAll bs) = arePlaceholders bs
  | [] => rfl
  | b :: rest => by
      have hrest := arePlaceholders_prunedAll rest
      rw [prunedAll, arePlaceholders]
      split
      next hb => rw [hb, Bool.true_and, hrest]
      next hb => rw [arePlaceholders, isPlaceholder_pruned b, hrest]

end

end Branch

namespace Declaration

variable {ctx : Context} {options : Options} {n : Node} {bs : List Branch}

/-! ### Declaring what is left -/

theorem branchText_of_placeholder (hname : isDeclarable (ctx.baseName n) = true)
    (h : (Branch.fork n bs).isPlaceholder = true) : branchText ctx (.fork n bs) = pure "" := by
  rw [branchText, if_neg (by simp [hname]), if_pos h]

mutual

theorem branchText_pruned : ∀ b : Branch, b.hidesPlaceholders ctx.rootName = true →
    b.isPlaceholder = false → branchText ctx b.pruned = branchText ctx b
  | .fork n bs => by
      intro h hb
      have hpruned : (Branch.fork n (Branch.prunedAll bs)).isPlaceholder = false :=
        (Branch.isPlaceholder_pruned (.fork n bs)).trans hb
      rw [Branch.pruned, branchText, branchText]
      by_cases hname : isDeclarable (n.path.baseName ctx.rootName) = true
      · have hhides : ((bs.isEmpty || !Branch.arePlaceholders bs) &&
            Branch.allHidePlaceholders ctx.rootName bs) = true := by
          rwa [Branch.hidesPlaceholders, if_pos hname, hb, Bool.false_or] at h
        rw [Bool.and_eq_true] at hhides
        -- With no placeholder for an only child, the node is declared in the same form.
        have hempty : (Branch.prunedAll bs).isEmpty = bs.isEmpty := by
          have hnil : Branch.prunedAll bs = [] ↔ Branch.arePlaceholders bs = true :=
            Branch.prunedAll_eq_nil
          cases bs with
          | nil => rfl
          | cons b rest => simp_all
        rw [hpruned, hb, hempty, branchTexts_prunedAll bs hhides.2]
      · have hskip : (!isDeclarable (ctx.baseName n)) = true := by
          simpa [Context.baseName] using hname
        rw [if_pos hskip, if_pos hskip]

theorem branchTexts_prunedAll : ∀ bs : List Branch,
    Branch.allHidePlaceholders ctx.rootName bs = true →
      branchTexts ctx (Branch.prunedAll bs) = branchTexts ctx bs
  | [] => fun _ => rfl
  | .fork n bs :: rest => by
      intro h
      rw [Branch.allHidePlaceholders, Bool.and_eq_true] at h
      have hrest := branchTexts_prunedAll rest h.2
      rw [Branch.prunedAll]
      split
      next hb =>
        -- Had its name been no good, the placeholder would have left a comment.
        have hname : isDeclarable (n.path.baseName ctx.rootName) = true := by
          by_contra hname
          have hhides := h.1
          rw [Branch.hidesPlaceholders, if_neg hname, hb] at hhides
          exact absurd hhides (by decide)
        rw [hrest, branchTexts, branchText_of_placeholder hname hb]
        simp only [pure_bind, String.empty_append, bind_pure]
      next hb =>
        have hhead := branchText_pruned (.fork n bs) h.1 (by simpa using hb)
        rw [branchTexts, branchTexts, hhead, hrest]

end

/-- The file of a resolved tree from which the placeholders are removed. -/
def prunedText (options : Options) (t : Tree) : Except Fault String :=
  (bodyText (contextOf options t) t.rootBranch.pruned).outcome.map (fileText t.version)

/-- Whether the placeholders of a tree pass unseen. The root is not declared, so it may have no
other children. -/
def hidesPlaceholders (t : Tree) : Bool :=
  Branch.allHidePlaceholders t.rootName t.rootBranch.children

theorem prunedText_of_hidesPlaceholders {t : Tree} (h : hidesPlaceholders t = true) :
    prunedText options t = (treeBody options t).outcome.map (fileText t.version) := by
  have hchildren : branchTexts (contextOf options t) (Branch.prunedAll t.rootBranch.children) =
      branchTexts (contextOf options t) t.rootBranch.children := branchTexts_prunedAll _ h
  rw [prunedText, treeBody, bodyText, bodyText, Branch.node_pruned, Branch.children_pruned,
    hchildren]

/-- A generation that succeeds has built a tree and resolved it, and if the placeholders in that
tree pass unseen, its text is that of the tree without them. -/
theorem generate_hides_placeholders {apis : Fields} {text : String}
    (h : (generate options (.obj apis)).outcome = .ok text) :
    ∃ t, (Tree.build (.obj apis) options.rootName).outcome = .ok t ∧
      (resolveAll t).outcome = .ok () ∧
      (hidesPlaceholders (resolveAll t).tree = true →
        prunedText options (resolveAll t).tree = .ok text) := by
  cases hbuild : (Tree.build (.obj apis) options.rootName).outcome with
  | error fault => simp [outcome_generate, hbuild, Except.bind] at h
  | ok t =>
      rw [outcome_generate_of_build hbuild] at h
      cases hok : (resolveAll t).outcome with
      | error fault => simp [hok, Except.bind] at h
      | ok _ =>
          rw [hok, Except.bind] at h
          exact ⟨t, rfl, hok, fun hhides => (prunedText_of_hidesPlaceholders hhides).trans h⟩

/-- A type that extends one beside its own member, and one that extends one in a namespace that does
not exist. -/
def danglingRecords : Fields :=
  [("A", .obj [("name", .str "A"), ("extends", .str "Ghost.Base")]),
    ("A.B", .obj [("name", .str "A.B"), ("extends", .str "A.Missing")])]

/-- The tree of `danglingRecords`. -/
def danglingTree : Tree :=
  ⟨"Global", "",
    [Node.blank [] false,
      ⟨["A"], [("name", .str "A"), ("extends", .str "Ghost.Base")], false, none⟩,
      ⟨["A", "B"], [("name", .str "A.B"), ("extends", .str "A.Missing")], false, none⟩], []⟩

theorem generate_hides_placeholders_danglingRecords :
    ∃ text, (generate .standard (.obj danglingRecords)).outcome = .ok text ∧
      (Tree.build (.obj danglingRecords) Options.standard.rootName).outcome = .ok danglingTree ∧
      hidesPlaceholders (resolveAll danglingTree).tree = true ∧
      prunedText .standard (resolveAll danglingTree).tree = .ok text := by
  have hbuild : (Tree.build (.obj danglingRecords) Options.standard.rootName).outcome =
      .ok danglingTree := by rfl
  have hresolved := show resolveAll danglingTree = _ by cbv
  have hok : (resolveAll danglingTree).outcome = .ok () := by rw [hresolved]
  have hhides : hidesPlaceholders (resolveAll danglingTree).tree = true := by
    rw [hresolved]
    decide +kernel
  obtain ⟨body, hbody⟩ : ∃ body,
      (treeBody .standard (resolveAll danglingTree).tree).outcome = .ok body := by
    rw [treeBody, show (resolveAll danglingTree).tree.rootBranch = _ by cbv, hresolved]
    exact ⟨_, rfl⟩
  have htext : (generate .standard (.obj danglingRecords)).outcome =
      .ok (fileText (resolveAll danglingTree).tree.version body) := by
    rw [outcome_generate_of_resolveAll hbuild hok, hbody]
    rfl
  obtain ⟨t, hbuild', -, hpruned⟩ := generate_hides_placeholders htext
  obtain rfl : danglingTree = t := Except.ok.inj (hbuild.symm.trans hbuild')
  exact ⟨_, htext, hbuild, hhides, hpruned hhides⟩

/-- Types that extend a missing member of a leaf, and a name that cannot be declared. -/
def hollowRecords : Fields :=
  [("A", .obj [("name", .str "A")]),
    ("B", .obj [("name", .str "B"), ("extends", .str "A.Missing")]),
    ("C", .obj [("name", .str "C"), ("extends", .str "2D")])]

/-- The tree of `hollowRecords`. -/
def hollowTree : Tree :=
  ⟨"Global", "",
    [Node.blank [] false,
      ⟨["A"], [("name", .str "A")], false, none⟩,
      ⟨["B"], [("name", .str "B"), ("extends", .str "A.Missing")], false, none⟩,
      ⟨["C"], [("name", .str "C"), ("extends", .str "2D")], false, none⟩], []⟩

/-- The leaf is declared as a namespace, and a comment stands for the name; without the placeholders
the leaf is a class, and there is no comment. -/
theorem placeholders_seen_hollowRecords :
    ∃ text, (generate .standard (.obj hollowRecords)).outcome = .ok text ∧
      (Tree.build (.obj hollowRecords) Options.standard.rootName).outcome = .ok hollowTree ∧
      (resolveAll hollowTree).outcome = .ok () ∧
      prunedText .standard (resolveAll hollowTree).tree ≠ .ok text := by
  have hbuild : (Tree.build (.obj hollowRecords) Options.standard.rootName).outcome =
      .ok hollowTree := by rfl
  have hresolved := show resolveAll hollowTree = _ by cbv
  have hok : (resolveAll hollowTree).outcome = .ok () := by rw [hresolved]
  have hbody : (treeBody .standard (resolveAll hollowTree).tree).outcome =
      .ok ("declare namespace A \x7b\n\x7d\n" ++
        "declare class B \x7b\n\tprotected constructor();\n\x7d\n" ++
        "declare class C \x7b\n\tprotected constructor();\n\x7d\n" ++
        "// #Skip incorrect identifier \"2D\";\n") := by
    rw [hresolved]
    decide +kernel
  have hpruned : (bodyText (contextOf .standard (resolveAll hollowTree).tree)
        (resolveAll hollowTree).tree.rootBranch.pruned).outcome =
      .ok ("declare class A \x7b\n\tprotected constructor();\n\x7d\n" ++
        "declare class B \x7b\n\tprotected constructor();\n\x7d\n" ++
        "declare class C \x7b\n\tprotected constructor();\n\x7d\n") := by
    rw [hresolved]
    decide +kernel
  have htext := outcome_generate_of_resolveAll hbuild hok
  rw [hbody, Except.map] at htext
  refine ⟨_, htext, hbuild, hok, fun h => ?_⟩
  rw [prunedText, hpruned, Except.map] at h
  exact absurd (fileText_injective (Except.ok.inj h)) (by decide +kernel)

end Declaration

end ApiTypings
