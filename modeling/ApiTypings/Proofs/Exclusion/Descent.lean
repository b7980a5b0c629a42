import ApiTypings.Namespace.Branch
import ApiTypings.Proofs.Exclusion.Operation
import Mathlib.Data.Nat.Init

/-!
Walks downwards.

A walk yields the node at a position and goes on, child after child, with walks from its children.
`Slots.Descent` is such a walk along the children that slots list. Nothing in a list of positions
says that following it comes to an end or does not come by the same node twice; that is so because a
child stands behind its parent and has no other one. In a tree that grew node by node there is
exactly one walk from each position, and what it yields is the subtree there: each node once, behind
its parent, and with all that is below it in one piece.
-/

namespace ApiTypings

/-! ### Walks over slots -/

namespace Slots

/-- What walks from some positions yield, one walk after another. A walk yields its position and
then what the walks from the children there yield. -/
inductive Descent (slots : List Slot) : List Nat → List Nat → Prop
  | done : Descent slots [] []
  | node {i : Nat} {s : Slot} {rest below others : List Nat} (hs : slots[i]? = some s)
      (hbelow : Descent slots s.children below) (hothers : Descent slots rest others) :
      Descent slots (i :: rest) (i :: below ++ others)

/-- The node at a position is the parent of the node at another one. -/
def IsParent (slots : List Slot) (i j : Nat) : Prop :=
  ∃ s, slots[j]? = some s ∧ s.parent = some i

/-- Going up along the parents, one comes from a position to the one above it, which may be the
same. -/
def Below (slots : List Slot) : Nat → Nat → Prop := Relation.ReflTransGen (IsParent slots)

variable {slots : List Slot} {s : Slot} {i j k : Nat} {positions rest others : List Nat}

/-! ### Parents -/

theorem IsParent.unique (h : IsParent slots i j) (h' : IsParent slots k j) : i = k := by
  obtain ⟨s, hs, hi⟩ := h
  obtain ⟨s', hs', hk⟩ := h'
  obtain rfl := Option.some.inj (hs.symm.trans hs')
  exact Option.some.inj (hi.symm.trans hk)

theorem InStep.lt_of_isParent (h : InStep slots) (hij : IsParent slots i j) : i < j := by
  obtain ⟨s, hs, hparent⟩ := hij
  exact h.parent_lt hs hparent

theorem InStep.mem_children (h : InStep slots) (hs : slots[i]? = some s) :
    j ∈ s.children ↔ IsParent slots i j := by
  rw [(h.children i s hs).2, List.mem_map]
  constructor
  · rintro ⟨⟨name, k⟩, hentry, rfl⟩
    obtain ⟨c, hc, hparent, -⟩ := (h.linked i s hs name k).1 hentry
    exact ⟨c, hc, hparent⟩
  · rintro ⟨c, hc, hparent⟩
    exact ⟨(c.name, j), (h.linked i s hs c.name j).2 ⟨c, hc, hparent, rfl⟩, rfl⟩

theorem InStep.le_of_below (h : InStep slots) (hij : Below slots i j) : i ≤ j := by
  induction hij with
  | refl => exact Nat.le_refl i
  | tail _ hstep ih => exact Nat.le_of_lt (Nat.lt_of_le_of_lt ih (h.lt_of_isParent hstep))

theorem InStep.not_below_of_isParent (h : InStep slots) (hij : IsParent slots i j) :
    ¬Below slots j i :=
  fun hji => Nat.not_lt_of_le (h.le_of_below hji) (h.lt_of_isParent hij)

/-- Of two positions above the same one, one is above the other. -/
theorem below_or_below (hi : Below slots i k) (hj : Below slots j k) :
    Below slots i j ∨ Below slots j i := by
  have hunique : Relator.RightUnique (Function.swap (IsParent slots)) :=
    fun _ _ _ h h' => h.unique h'
  have hup := Relation.ReflTransGen.total_of_right_unique hunique
    (Relation.reflTransGen_swap.2 hj) (Relation.reflTransGen_swap.2 hi)
  exact hup.imp Relation.reflTransGen_swap.1 Relation.reflTransGen_swap.1

/-- No position is below two others. -/
def Apart (slots : List Slot) (i j : Nat) : Prop := ∀ k, Below slots i k → ¬Below slots j k

theorem InStep.not_below_sibling (h : InStep slots) (hi : IsParent slots k i)
    (hj : IsParent slots k j) (hne : i ≠ j) : ¬Below slots i j := by
  intro hij
  rcases Relation.ReflTransGen.cases_tail hij with rfl | ⟨above, habove, hparent⟩
  · exact hne rfl
  · obtain rfl := hparent.unique hj
    exact h.not_below_of_isParent hi habove

theorem InStep.apart_of_siblings (h : InStep slots) (hi : IsParent slots k i)
    (hj : IsParent slots k j) (hne : i ≠ j) : Apart slots i j := by
  intro m hm hm'
  rcases below_or_below hm hm' with hij | hji
  · exact h.not_below_sibling hi hj hne hij
  · exact h.not_below_sibling hj hi hne.symm hji

theorem InStep.apart_children (h : InStep slots) (hs : slots[i]? = some s) :
    s.children.Pairwise (Apart slots) :=
  (h.children i s hs).1.imp_of_mem fun ha hb hne =>
    h.apart_of_siblings ((h.mem_children hs).1 ha) ((h.mem_children hs).1 hb) hne

/-! ### What a walk yields -/

/-- Walks come to one end only. -/
theorem Descent.unique (h : Descent slots positions others) {others' : List Nat}
    (h' : Descent slots positions others') : others = others' := by
  induction h generalizing others' with
  | done =>
      cases h'
      rfl
  | node hs _ _ ihbelow ihothers =>
      cases h' with
      | node hs' hbelow' hothers' =>
        obtain rfl := Option.some.inj (hs.symm.trans hs')
        rw [ihbelow hbelow', ihothers hothers']

theorem Descent.single {below : List Nat} (hs : slots[i]? = some s)
    (hbelow : Descent slots s.children below) : Descent slots [i] (i :: below) := by
  have hone : Descent slots [i] (i :: below ++ []) := .node hs hbelow .done
  rwa [List.append_nil] at hone

/-- Walks from several positions are the walks from each of them, joined. -/
theorem descent_iff_forall₂ :
    Descent slots positions others ↔
      ∃ walks, List.Forall₂ (fun i walk => Descent slots [i] walk) positions walks ∧
        others = walks.flatten := by
  constructor
  · intro h
    induction h with
    | done => exact ⟨[], .nil, rfl⟩
    | @node i s rest below others hs hbelow _ _ ih =>
        obtain ⟨walks, hwalks, rfl⟩ := ih
        exact ⟨_, .cons (.single hs hbelow) hwalks, rfl⟩
  · rintro ⟨walks, hwalks, rfl⟩
    induction hwalks with
    | nil => exact .done
    | cons hone _ ih =>
        cases hone with
        | node hs hbelow hdone =>
          cases hdone
          rw [List.append_nil]
          exact .node hs hbelow ih

/-- A walk comes to an end, since the children of a node stand behind it. -/
theorem InStep.exists_descent (h : InStep slots) (hi : i < slots.length) :
    ∃ walk, Descent slots [i] walk := by
  induction hn : slots.length - i using Nat.strong_induction_on generalizing i with
  | _ n ih =>
      have hs : slots[i]? = some slots[i] := List.getElem?_eq_getElem hi
      have hchildren : ∀ c ∈ slots[i].children, ∃ walk, Descent slots [c] walk := by
        intro c hc
        have hparent := (h.mem_children hs).1 hc
        have hlt := h.lt_of_isParent hparent
        obtain ⟨slot, hslot, -⟩ := hparent
        have hc' := (List.getElem?_eq_some_iff.1 hslot).1
        exact ih (slots.length - c) (by omega) hc' rfl
      choose! walk hwalk using hchildren
      have hbelow : Descent slots slots[i].children (slots[i].children.map walk).flatten :=
        descent_iff_forall₂.2 ⟨_, List.forall₂_map_right_iff.2 (List.forall₂_same.2 hwalk), rfl⟩
      exact ⟨_, .single hs hbelow⟩

/-- Walks yield what is below the positions that they start from. -/
theorem Descent.mem_iff (h : Descent slots positions others) (hslots : InStep slots) :
    j ∈ others ↔ ∃ i ∈ positions, Below slots i j := by
  induction h with
  | done => simp
  | @node i s rest below others hs _ _ ihbelow ihothers =>
      have hself : Below slots i j ↔ i = j ∨ ∃ c ∈ s.children, Below slots c j := by
        simp only [hslots.mem_children hs]
        exact Relation.ReflTransGen.cases_head_iff
      rw [List.cons_append, List.mem_cons, List.mem_append, ihbelow, ihothers,
        List.exists_mem_cons_iff, hself, or_assoc, eq_comm]

/-- Walks yield nothing twice if nothing is below two of the positions that they start from. -/
theorem Descent.nodup (h : Descent slots positions others) (hslots : InStep slots)
    (hapart : positions.Pairwise (Apart slots)) : others.Nodup := by
  induction h with
  | done => exact List.nodup_nil
  | @node i s rest below others hs hbelow hothers ihbelow ihothers =>
      obtain ⟨hi, hrest⟩ := List.pairwise_cons.1 hapart
      have hfar : ∀ k ∈ others, ¬Below slots i k := by
        intro k hk hik
        obtain ⟨j, hj, hjk⟩ := (hothers.mem_iff hslots).1 hk
        exact hi j hj k hik hjk
      have hnear : ∀ k ∈ below, k ≠ i ∧ Below slots i k := by
        intro k hk
        obtain ⟨c, hc, hck⟩ := (hbelow.mem_iff hslots).1 hk
        have hparent := (hslots.mem_children hs).1 hc
        refine ⟨?_, .head hparent hck⟩
        rintro rfl
        exact hslots.not_below_of_isParent hparent hck
      rw [List.cons_append, List.nodup_cons, List.nodup_append, List.mem_append, not_or]
      refine ⟨⟨fun hmem => (hnear i hmem).1 rfl, fun hmem => hfar i hmem .refl⟩,
        ihbelow (hslots.apart_children hs), ihothers hrest, ?_⟩
      rintro k hk _ hk' rfl
      exact hfar k hk' (hnear k hk).2

/-- What walks yield comes behind its parent, unless they start there. -/
theorem Descent.parent_first (h : Descent slots positions others) (hslots : InStep slots)
    (hj : j ∈ others) (hkj : IsParent slots k j) : j ∈ positions ∨ [k, j].Sublist others := by
  induction h with
  | done => exact absurd hj List.not_mem_nil
  | @node i s rest below others hs _ _ ihbelow ihothers =>
      rw [List.cons_append, List.mem_cons, List.mem_append] at hj
      rcases hj with rfl | hj | hj
      · exact .inl List.mem_cons_self
      · rcases ihbelow hj with hchild | hsub
        · obtain rfl := hkj.unique ((hslots.mem_children hs).1 hchild)
          exact .inr (.cons_cons k (List.singleton_sublist.2 (List.mem_append_left others hj)))
        · exact .inr (.cons i (hsub.trans (List.sublist_append_left below others)))
      · rcases ihothers hj with hstart | hsub
        · exact .inl (List.mem_cons_of_mem i hstart)
        · exact .inr (.cons i (hsub.trans (List.sublist_append_right below others)))

/-- Wherever walks come by, they go on with the walks from the children there, before anything
else. -/
theorem Descent.infix (h : Descent slots positions others) (hj : j ∈ others)
    (hs : slots[j]? = some s) :
    ∃ below, Descent slots s.children below ∧ j :: below <:+: others := by
  induction h with
  | done => exact absurd hj List.not_mem_nil
  | @node i s' rest below others hs' hbelow _ ihbelow ihothers =>
      rw [List.cons_append, List.mem_cons, List.mem_append] at hj
      rcases hj with rfl | hj | hj
      · obtain rfl := Option.some.inj (hs.symm.trans hs')
        exact ⟨below, hbelow, (List.prefix_append (j :: below) others).isInfix⟩
      · obtain ⟨walked, hwalked, hin⟩ := ihbelow hj
        have hmore : below <:+: i :: below ++ others := ⟨[i], others, rfl⟩
        exact ⟨walked, hwalked, hin.trans hmore⟩
      · obtain ⟨walked, hwalked, hin⟩ := ihothers hj
        exact ⟨walked, hwalked, hin.trans (List.suffix_append (i :: below) others).isInfix⟩

theorem InStep.below_root (h : InStep slots) (hi : i < slots.length) : Below slots 0 i := by
  induction i using Nat.strong_induction_on with
  | _ i ih =>
      by_cases hzero : i = 0
      · exact hzero ▸ .refl
      · have hs : slots[i]? = some slots[i] := List.getElem?_eq_getElem hi
        obtain ⟨j, hj, hparent⟩ := h.parent i _ hs hzero
        exact (ih j hj (Nat.lt_trans hj hi)).tail ⟨_, hs, hparent⟩

theorem InStep.lt_length_of_below (hi : i < slots.length) (hij : Below slots i j) :
    j < slots.length := by
  rcases Relation.ReflTransGen.cases_tail hij with rfl | ⟨_, -, s, hs, -⟩
  · exact hi
  · exact (List.getElem?_eq_some_iff.1 hs).1

end Slots

/-! ### Walks over trees -/

namespace Tree

variable {t : Tree}

/-- A walk yields its node and then what the walks from its children yield. -/
theorem walk_eq (t : Tree) (n : Node) :
    t.walk n = n :: (t.childrenOf n.path).flatMap t.walk := by
  have hall (bs : List Branch) : Branch.preorderAll bs = bs.flatMap Branch.preorder := by
    induction bs with
    | nil => rfl
    | cons b rest ih => rw [Branch.preorderAll, List.flatMap_cons, ih]
  rw [walk, branch_eq, Branch.preorder, hall, List.flatMap_map]
  rfl

theorem getElem?_indexOf? (h : Path.Created t.paths) {n : Node} (hn : n ∈ t.nodes) :
    (t.indexOf? n.path).bind (t.nodes[·]?) = some n := by
  obtain ⟨i, hi⟩ := List.mem_iff_getElem?.1 hn
  have hpath : t.paths[i]? = some n.path := by rw [paths, List.getElem?_map, hi, Option.map_some]
  rw [indexOf?_of_created h hpath, Option.bind_some, hi]

/-- The nodes at the positions that a slot lists are the children of its node. -/
theorem getElem?_children (h : Path.Created t.paths) {i : Nat} {n : Node}
    (hi : t.nodes[i]? = some n) {s : Slot} (hs : t.slots[i]? = some s) :
    s.children.map (t.nodes[·]?) = (t.childrenOf n.path).map some := by
  obtain ⟨s', hs', -, -, -, hchildren⟩ := ((Slotted.of_created h).position i n hi).2
  obtain rfl := Option.some.inj (hs.symm.trans hs')
  calc s.children.map (t.nodes[·]?)
    _ = (s.children.map some).map (·.bind (t.nodes[·]?)) := by simp
    _ = (t.childrenOf n.path).map fun c => (t.indexOf? c.path).bind (t.nodes[·]?) := by
        rw [hchildren, List.map_map]
        rfl
    _ = (t.childrenOf n.path).map some :=
        List.map_congr_left fun c hc => getElem?_indexOf? h (List.mem_of_mem_filter hc)

/-- Walks along slots yield the positions of the nodes that walks over the tree yield. -/
theorem getElem?_descent (h : Path.Created t.paths) {positions others : List Nat}
    (hdescent : Slots.Descent t.slots positions others) {ns : List Node}
    (hns : positions.map (t.nodes[·]?) = ns.map some) :
    others.map (t.nodes[·]?) = (ns.flatMap t.walk).map some := by
  induction hdescent generalizing ns with
  | done =>
      obtain rfl : ns = [] := by simpa using hns.symm
      rfl
  | @node i s rest below others hs _ _ ihbelow ihothers =>
      cases ns with
      | nil => simp at hns
      | cons n ns =>
        obtain ⟨hi, hrest⟩ := List.cons.inj hns
        have hwalk := ihbelow (getElem?_children h hi hs)
        rw [List.flatMap_cons, walk_eq, List.cons_append, List.cons_append, List.map_cons,
          List.map_append, hwalk, ihothers hrest]
        simp [hi]

/-- The walk from a position: it comes to one end, and its nodes are those of the walk over the
tree. It yields the subtree and nothing twice; each node but the first comes behind its parent, and
at once behind a node come the walks from its children, one after another and in order. -/
structure Walks (t : Tree) (i : Nat) (positions : List Nat) : Prop where
  ends : ∀ others, Slots.Descent t.slots [i] others ↔ others = positions
  nodes : ∀ n, t.nodes[i]? = some n → positions.map (t.nodes[·]?) = (t.walk n).map some
  mem : ∀ j, j ∈ positions ↔ Slots.Below t.slots i j
  nodup : positions.Nodup
  parent_first : ∀ j ∈ positions, j ≠ i → ∃ k, Slots.IsParent t.slots k j ∧ [k, j].Sublist positions
  subtree : ∀ j ∈ positions, ∃ s, t.slots[j]? = some s ∧
    ∃ walks, List.Forall₂ (fun c walk => Slots.Descent t.slots [c] walk) s.children walks ∧
      j :: walks.flatten <:+: positions

theorem Walks.of_descent (h : Path.Created t.paths) {i : Nat} (hi : i < t.size)
    {positions : List Nat} (hwalk : Slots.Descent t.slots [i] positions) :
    t.Walks i positions := by
  obtain ⟨hslots, hfollow⟩ := inStep_slots h
  have hlength : t.slots.length = t.size := (Slotted.of_created h).length
  have hmem (j : Nat) : j ∈ positions ↔ Slots.Below t.slots i j := by
    rw [hwalk.mem_iff hslots]
    simp
  constructor
  case ends => exact fun others => ⟨fun hothers => hothers.unique hwalk, fun h => h ▸ hwalk⟩
  case nodes =>
    intro n hn
    have hone : [i].map (t.nodes[·]?) = [n].map some := by simp [hn]
    simpa using getElem?_descent h hwalk hone
  case mem => exact hmem
  case nodup => exact hwalk.nodup hslots (List.pairwise_singleton _ i)
  case parent_first =>
    intro j hj hne
    rcases Relation.ReflTransGen.cases_tail ((hmem j).1 hj) with rfl | ⟨k, -, hparent⟩
    · exact absurd rfl hne
    · have hbehind := hwalk.parent_first hslots hj hparent
      exact ⟨k, hparent, hbehind.resolve_left fun hstart => hne (List.mem_singleton.1 hstart)⟩
  case subtree =>
    intro j hj
    have hlt := Slots.InStep.lt_length_of_below (hlength ▸ hi) ((hmem j).1 hj)
    have hs : t.slots[j]? = some t.slots[j] := List.getElem?_eq_getElem hlt
    obtain ⟨below, hbelow, hin⟩ := hwalk.infix hj hs
    obtain ⟨walks, hwalks, rfl⟩ := Slots.descent_iff_forall₂.1 hbelow
    exact ⟨_, hs, walks, hwalks, hin⟩

/-- Whatever is done to a tree that has only a root, and whether or not it succeeds, a walk from any
position comes to an end and yields the subtree there, and a walk from the root yields every
position once. -/
theorem walks_operateAll (rootName version : String) (operations : List Operation) :
    (∀ i < ((rooted rootName version).operateAll operations).size,
        ∃ positions, ((rooted rootName version).operateAll operations).Walks i positions) ∧
      ∃ positions, ((rooted rootName version).operateAll operations).Walks 0 positions ∧
        positions.Perm (List.range ((rooted rootName version).operateAll operations).size) := by
  have hcreated := (expands_operateAll (t := rooted rootName version) .root operations).created
  generalize (rooted rootName version).operateAll operations = t at hcreated
  have hslots := (inStep_slots hcreated).1
  have hlength : t.slots.length = t.size := (Slotted.of_created hcreated).length
  have hwalks : ∀ i < t.size, ∃ positions, t.Walks i positions := by
    intro i hi
    obtain ⟨positions, hwalk⟩ := hslots.exists_descent (hlength ▸ hi)
    exact ⟨positions, .of_descent hcreated hi hwalk⟩
  have hroot : 0 < t.slots.length := by
    obtain ⟨s, hs, -⟩ := hslots.root
    exact (List.getElem?_eq_some_iff.1 hs).1
  obtain ⟨positions, hpositions⟩ := hwalks 0 (hlength ▸ hroot)
  refine ⟨hwalks, positions, hpositions, ?_⟩
  refine (List.perm_ext_iff_of_nodup hpositions.nodup List.nodup_range).2 fun j => ?_
  rw [hpositions.mem, List.mem_range, ← hlength]
  exact ⟨Slots.InStep.lt_length_of_below hroot, hslots.below_root⟩

/-- Two namespaces, of which the first one gets a branch below it after the second one is there. -/
def branchingOperations : List Operation :=
  [.create 0 "A" false, .create 0 "B" false, .lookUp "A.C.D" true, .create 2 "E" false]

theorem walks_operateAll_branchingOperations :
    1 < ((rooted "Global" "").operateAll branchingOperations).size ∧
      ((rooted "Global" "").operateAll branchingOperations).Walks 1 [1, 3, 4] ∧
      ((rooted "Global" "").operateAll branchingOperations).Walks 0 [0, 1, 3, 4, 2, 5] := by
  have hsize : 1 < ((rooted "Global" "").operateAll branchingOperations).size := by decide
  obtain ⟨hwalks, hroot⟩ := walks_operateAll "Global" "" branchingOperations
  obtain ⟨branch, hbranch⟩ := hwalks 1 hsize
  obtain ⟨whole, hwhole, -⟩ := hroot
  have hbelow : Slots.Descent ((rooted "Global" "").operateAll branchingOperations).slots
      [3] [3, 4] := .single rfl (.single rfl .done)
  have hchildren : Slots.Descent ((rooted "Global" "").operateAll branchingOperations).slots
      [1, 2] ([1, 3, 4] ++ [2, 5]) := .node rfl hbelow (.single rfl (.single rfl .done))
  rw [← (hbranch.ends _).1 (.single rfl hbelow)] at hbranch
  rw [← (hwhole.ends _).1 (.single rfl hchildren)] at hwhole
  exact ⟨hsize, hbranch, hwhole⟩

end Tree

end ApiTypings
