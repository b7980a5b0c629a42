import ApiTypings.Proofs.Namespace.Node
import ApiTypings.Proofs.Namespace.Slot

/-!
Trees that were created node by node.

The slots of a tree are made from the paths of its nodes alone. If each node was created below one
that was there, its slot is found by going down from the root along its path, by the names of
children, and making sure of a child in the tree is the same as getting or creating it in the slots.
So the tree and its slots can be kept side by side.
-/

namespace ApiTypings

/-! ### Paths -/

namespace Path

/-- The paths of nodes that were created one after another, the root first, each below one that was
there. -/
inductive Created : List Path → Prop
  | root : Created [[]]
  | child {ps : List Path} {p : Path} {name : String} (h : Created ps) (hp : p ∈ ps)
      (hnew : p ++ [name] ∉ ps) : Created (ps ++ [p ++ [name]])

variable {ps : List Path} {p q : Path}

theorem Created.nodup (h : Created ps) : ps.Nodup := by
  induction h with
  | root => simp
  | child _ _ hnew ih =>
      refine List.nodup_append.2 ⟨ih, by simp, ?_⟩
      rintro p hp _ hq rfl
      exact hnew (List.mem_singleton.1 hq ▸ hp)

theorem Created.getElem?_zero (h : Created ps) : ps[0]? = some [] := by
  induction h with
  | root => rfl
  | child _ hp _ ih =>
      rw [List.getElem?_append_left (List.getElem?_eq_some_iff.1 ih).1, ih]

theorem Created.root_mem (h : Created ps) : [] ∈ ps := List.mem_of_getElem? h.getElem?_zero

theorem isChildOf_concat {name : String} : p.isChildOf (q ++ [name]) = true ↔ p = q := by
  rw [isChildOf, List.dropLast_concat]
  simpa using eq_comm

/-- What lies on the way to a node is a node. -/
theorem Created.closed (h : Created ps) (hq : q ∈ ps) (hp : p <+: q) : p ∈ ps := by
  induction h generalizing q with
  | root =>
      obtain rfl := List.mem_singleton.1 hq
      exact List.prefix_nil.1 hp ▸ List.mem_singleton.2 rfl
  | child h hmem _ ih =>
      rcases List.mem_append.1 hq with hq | hq
      · exact List.mem_append_left _ (ih hq hp)
      · rw [List.mem_singleton.1 hq] at hp
        rcases List.prefix_concat_iff.1 hp with rfl | hp
        · exact List.mem_append_right _ (List.mem_singleton.2 rfl)
        · exact List.mem_append_left _ (ih hmem hp)

/-- The parent of a node is a node. -/
theorem Created.mem_of_isChildOf (h : Created ps) (hq : q ∈ ps) (hp : p.isChildOf q = true) :
    p ∈ ps := h.closed hq (isPrefix_of_isChildOf hp)

end Path

namespace Slots

variable {rootName name : String} {ps : List Path} {p q : Path} {slots : List Slot} {i j : Nat}
  {s : Slot}

/-- Slots of nodes at the paths given. That of the root has no parent and the root's name; any other
has the last segment of its path for a name and the position of the path above for its parent. How
deep a node is declared follows from its path alone, and its children are the paths one segment
longer, in order. -/
structure Follow (rootName : String) (ps : List Path) (slots : List Slot) : Prop where
  length : slots.length = ps.length
  above : ∀ (i : Nat) (p : Path) (s : Slot), ps[i]? = some p → slots[i]? = some s →
    p = [] ∧ s.parent = none ∧ s.name = rootName ∨
      ∃ j q, s.parent = some j ∧ ps[j]? = some q ∧ p = q ++ [s.name]
  depth : ∀ (i : Nat) (p : Path) (s : Slot), ps[i]? = some p → slots[i]? = some s →
    s.depth = p.depth ∧ s.inGlobal = p.inGlobal
  children : ∀ (i : Nat) (p : Path) (s : Slot), ps[i]? = some p → slots[i]? = some s →
    s.children.map (ps[·]?) = (ps.filter p.isChildOf).map some

theorem follow_root (rootName : String) : Follow rootName [[]] [Slot.root rootName] := by
  refine ⟨rfl, ?_, ?_, ?_⟩
  all_goals
    intro i p s hp hs
    obtain ⟨hi, -⟩ := List.getElem?_eq_some_iff.1 hp
    obtain rfl : i = 0 := Nat.lt_one_iff.1 hi
    obtain rfl := Option.some.inj hp
    obtain rfl := Option.some.inj hs
  · exact .inl ⟨rfl, rfl, rfl⟩
  · exact ⟨rfl, rfl⟩
  · rfl

theorem Follow.getElem? (h : Follow rootName ps slots) (hi : ps[i]? = some p) :
    ∃ s, slots[i]? = some s := by
  have hlt := (List.getElem?_eq_some_iff.1 hi).1
  exact ⟨_, List.getElem?_eq_getElem (h.length ▸ hlt)⟩

theorem Follow.child? (h : Follow rootName ps slots) (hslots : InStep slots) (hps : ps.Nodup)
    (hi : ps[i]? = some p) (name : String) (j : Nat) :
    child? slots i name = some j ↔ ps[j]? = some (p ++ [name]) := by
  obtain ⟨s, hs⟩ := h.getElem? hi
  rw [hslots.child?_eq_some hs]
  constructor
  · rintro ⟨c, hc, hparent, rfl⟩
    have hlt : j < ps.length := h.length ▸ (List.getElem?_eq_some_iff.1 hc).1
    have hj : ps[j]? = some ps[j] := List.getElem?_eq_getElem hlt
    rcases h.above j _ c hj hc with ⟨-, hnone, -⟩ | ⟨k, q, hk, hq, hpath⟩
    · simp [hnone] at hparent
    · obtain rfl := Option.some.inj (hk.symm.trans hparent)
      obtain rfl := Option.some.inj (hq.symm.trans hi)
      rw [hj, hpath]
  · intro hj
    obtain ⟨c, hc⟩ := h.getElem? hj
    rcases h.above j _ c hj hc with ⟨hnil, -⟩ | ⟨k, q, hk, hq, hpath⟩
    · simp at hnil
    · obtain ⟨rfl, hname⟩ := List.append_inj' hpath rfl
      have hlt := (List.getElem?_eq_some_iff.1 hi).1
      obtain rfl := (List.getElem?_inj hlt hps).1 (hi.trans hq.symm)
      exact ⟨c, hc, hk, (List.singleton_inj.1 hname).symm⟩

/-- Segments lead from a node to the node at the path that they continue. -/
theorem Follow.find?_from (h : Follow rootName ps slots) (hslots : InStep slots)
    (hps : Path.Created ps) (hi : ps[i]? = some p) :
    find? slots i q = some j ↔ ps[j]? = some (p ++ q) := by
  induction q generalizing i p with
  | nil =>
      have hlt := (List.getElem?_eq_some_iff.1 hi).1
      rw [find?, Option.some.injEq, List.append_nil, ← hi, ← List.getElem?_inj hlt hps.nodup]
      exact eq_comm
  | cons name rest ih =>
      have hchild (k : Nat) := h.child? hslots hps.nodup hi name k
      rw [find?, Option.bind_eq_some_iff, List.append_cons]
      constructor
      · rintro ⟨k, hk, hrest⟩
        exact (ih ((hchild k).1 hk)).1 hrest
      · intro hj
        have hmem := hps.closed (List.mem_of_getElem? hj) (List.prefix_append (p ++ [name]) rest)
        obtain ⟨k, hk⟩ := List.mem_iff_getElem?.1 hmem
        exact ⟨k, (hchild k).2 hk, (ih hk).2 hj⟩

theorem Follow.find? (h : Follow rootName ps slots) (hslots : InStep slots)
    (hps : Path.Created ps) : find? slots 0 p = some i ↔ ps[i]? = some p :=
  h.find?_from hslots hps hps.getElem?_zero

theorem Follow.parent_eq_none (h : Follow rootName ps slots) (hi : ps[i]? = some p)
    (hs : slots[i]? = some s) : s.parent = none ↔ p = [] := by
  rcases h.above i p s hi hs with ⟨hnil, hnone, -⟩ | ⟨j, q, hj, -, rfl⟩
  · simp [hnil, hnone]
  · simp [hj]

theorem Follow.lt_of_mem_children (h : Follow rootName ps slots) (hi : ps[i]? = some p)
    (hs : slots[i]? = some s) (hj : j ∈ s.children) : j < ps.length := by
  have hmem : ps[j]? ∈ (ps.filter p.isChildOf).map some :=
    h.children i p s hi hs ▸ List.mem_map.2 ⟨j, hj, rfl⟩
  obtain ⟨q, -, hq⟩ := List.mem_map.1 hmem
  exact (List.getElem?_eq_some_iff.1 hq.symm).1

/-- A new node is declared one level deeper than its parent, unless that is the root. -/
theorem Follow.depth_below (h : Follow rootName ps slots) (hi : ps[i]? = some p)
    (hs : slots[i]? = some s) :
    (s.below i name j).depth = (p ++ [name]).depth ∧
      (s.below i name j).inGlobal = (p ++ [name]).inGlobal := by
  have hroot := h.parent_eq_none hi hs
  obtain ⟨hdepth, -⟩ := h.depth i p s hi hs
  rw [Path.depth] at hdepth
  cases p with
  | nil => simp [Slot.below, Path.depth, Path.inGlobal, hroot.2 rfl]
  | cons first rest =>
      have hparent : s.parent.isNone = false :=
        Option.isNone_eq_false_iff.2 (Option.isSome_iff_ne_none.2 (mt hroot.1 (by simp)))
      simp [Slot.below, Path.depth, Path.inGlobal, hparent, hdepth]

/-- The children that there are keep their places when a node is added. -/
theorem Follow.children_append (h : Follow rootName ps slots) (hi : ps[i]? = some p)
    (hs : slots[i]? = some s) (added : List Path) :
    s.children.map ((ps ++ added)[·]?) = (ps.filter p.isChildOf).map some := by
  rw [← h.children i p s hi hs]
  exact List.map_congr_left fun j hj =>
    List.getElem?_append_left (h.lt_of_mem_children hi hs hj)

theorem Follow.attach (h : Follow rootName ps slots) (hps : Path.Created ps)
    (hi : ps[i]? = some p) (hnew : p ++ [name] ∉ ps) :
    Follow rootName (ps ++ [p ++ [name]]) (attach slots i name) := by
  obtain ⟨s, hs⟩ := h.getElem? hi
  have hlt : i < ps.length := (List.getElem?_eq_some_iff.1 hi).1
  -- The last slot is that of the new path; the others have the paths that they had.
  have hlast : ∀ {q : Path}, (ps ++ [p ++ [name]])[slots.length]? = some q → q = p ++ [name] := by
    intro q hq
    rw [h.length, List.getElem?_concat_length] at hq
    exact (Option.some.inj hq).symm
  have hfront : ∀ {j : Nat} {q : Path} {old : Slot}, slots[j]? = some old →
      (ps ++ [p ++ [name]])[j]? = some q → ps[j]? = some q := by
    intro j q old hold hq
    have hj : j < ps.length := h.length ▸ (List.getElem?_eq_some_iff.1 hold).1
    rwa [List.getElem?_append_left hj] at hq
  constructor
  case length => rw [length_attach hs, h.length, List.length_append]; rfl
  all_goals
    intro j q c hq hc
    rcases attach_cases hs hc with ⟨rfl, rfl⟩ | ⟨old, hold, hkeeps, hc⟩
  case above.inl =>
    obtain rfl := hlast hq
    exact .inr ⟨i, p, rfl, by rw [List.getElem?_append_left hlt, hi], rfl⟩
  case above.inr =>
    rw [hkeeps.parent, hkeeps.name]
    rcases h.above j q old (hfront hold hq) hold with hroot | ⟨k, x, hk, hx, hpath⟩
    · exact .inl hroot
    · have hkt := (List.getElem?_eq_some_iff.1 hx).1
      exact .inr ⟨k, x, hk, by rw [List.getElem?_append_left hkt, hx], hpath⟩
  case depth.inl =>
    obtain rfl := hlast hq
    exact h.depth_below hi hs
  case depth.inr =>
    rw [hkeeps.depth, hkeeps.inGlobal]
    exact h.depth j q old (hfront hold hq) hold
  case children.inl =>
    obtain rfl := hlast hq
    have hnone : ∀ x ∈ ps ++ [p ++ [name]], ¬Path.isChildOf (p ++ [name]) x = true := by
      intro x hx hchild
      rcases List.mem_append.1 hx with hx | hx
      · exact hnew (hps.mem_of_isChildOf hx hchild)
      · rw [List.mem_singleton.1 hx] at hchild
        exact absurd (Path.length_of_isChildOf hchild) (by omega)
    rw [List.filter_eq_nil_iff.2 hnone]
    rfl
  case children.inr =>
    have hj := hfront hold hq
    rw [hc, List.filter_append, List.map_append, ← h.children_append hj hold [p ++ [name]]]
    split
    next hji =>
      subst hji
      obtain rfl := Option.some.inj (hj.symm.trans hi)
      simp [Slot.adopt, h.length, Path.isChildOf_concat.2 rfl]
    next hji =>
      have hne : q ≠ p := by
        rintro rfl
        have hj' := (List.getElem?_eq_some_iff.1 hj).1
        exact hji ((List.getElem?_inj hj' hps.nodup).1 (hj.trans hi.symm))
      have hnot : ¬q.isChildOf (p ++ [name]) = true := mt Path.isChildOf_concat.1 hne
      simp [hnot]

theorem ofPaths_concat (ps : List Path) (p : Path) :
    ofPaths rootName (ps ++ [p]) = place rootName (ofPaths rootName ps) p := by
  simp [ofPaths]

theorem place_concat (hi : find? slots 0 p = some i) :
    place rootName slots (p ++ [name]) = attach slots i name := by
  simp [place, hi]

/-- The slots of nodes that were created one after another are in step and follow their paths. -/
theorem inStep_ofPaths (h : Path.Created ps) :
    InStep (ofPaths rootName ps) ∧ Follow rootName ps (ofPaths rootName ps) := by
  induction h with
  | root =>
      refine ⟨inStep_root rootName, follow_root rootName⟩
  | @child ps p name h hp hnew ih =>
      obtain ⟨hslots, hfollow⟩ := ih
      obtain ⟨i, hi⟩ := List.mem_iff_getElem?.1 hp
      obtain ⟨s, hs⟩ := hfollow.getElem? hi
      have hnone : Slots.child? (ofPaths rootName ps) i name = none :=
        Option.eq_none_iff_forall_not_mem.2 fun j hj =>
          hnew (List.mem_of_getElem? ((hfollow.child? hslots h.nodup hi name j).1 hj))
      rw [ofPaths_concat, place_concat ((hfollow.find? hslots h).2 hi)]
      exact ⟨hslots.attach hs hnone, hfollow.attach h hi hnew⟩

end Slots

/-! ### Slots of trees -/

namespace Tree

variable {t : Tree} {base : Path} {name : String} {i : Nat}

theorem slots_eq (t : Tree) : t.slots = Slots.ofPaths t.rootName t.paths := rfl

theorem slots_congr {u : Tree} (hroot : u.rootName = t.rootName) (hpaths : u.paths = t.paths) :
    u.slots = t.slots := by
  rw [slots_eq, slots_eq, hroot, hpaths]

theorem inStep_slots (h : Path.Created t.paths) :
    Slots.InStep t.slots ∧ Slots.Follow t.rootName t.paths t.slots := Slots.inStep_ofPaths h

/-- Making sure of a child of a node is getting or creating it in the slots. -/
theorem slots_ensureChild (h : Path.Created t.paths) (hi : t.paths[i]? = some base)
    (name : String) (s : Bool) :
    ∃ j, (t.ensureChild base name s).paths[j]? = some (base ++ [name]) ∧
      Slots.getOrCreate t.slots i name = ((t.ensureChild base name s).slots, j) := by
  obtain ⟨hslots, hfollow⟩ := inStep_slots h
  have hchild (j : Nat) := hfollow.child? hslots h.nodup hi name j
  have hpaths := paths_ensureChild s t base name
  by_cases hmem : base ++ [name] ∈ t.paths
  · rw [if_pos hmem] at hpaths
    obtain ⟨j, hj⟩ := List.mem_iff_getElem?.1 hmem
    refine ⟨j, hpaths ▸ hj, ?_⟩
    rw [Slots.getOrCreate, (hchild j).2 hj]
    exact congrArg (·, j) (slots_congr (rootName_ensureChild t base name s) hpaths).symm
  · rw [if_neg hmem] at hpaths
    have hnone : Slots.child? t.slots i name = none :=
      Option.eq_none_iff_forall_not_mem.2 fun j hj =>
        hmem (List.mem_of_getElem? ((hchild j).1 hj))
    have hslots' : (t.ensureChild base name s).slots = Slots.attach t.slots i name := by
      rw [slots_eq, rootName_ensureChild, hpaths, Slots.ofPaths_concat, ← slots_eq,
        Slots.place_concat ((hfollow.find? hslots h).2 hi)]
    refine ⟨t.paths.length, by rw [hpaths, List.getElem?_concat_length], ?_⟩
    rw [Slots.getOrCreate, hnone, hslots', hfollow.length]

/-- What making sure of children leaves of a tree and its slots. -/
structure Expands (t u : Tree) : Prop where
  created : Path.Created u.paths
  evolve : Slots.Evolve t.slots u.slots

theorem Expands.refl (h : Path.Created t.paths) : t.Expands t := ⟨h, .refl⟩

theorem Expands.trans {u v : Tree} (h : t.Expands u) (h' : u.Expands v) : t.Expands v :=
  ⟨h'.created, h.evolve.trans h'.evolve⟩

theorem expands_ensureChild (h : Path.Created t.paths) (hbase : base ∈ t.paths) (name : String)
    (s : Bool) : t.Expands (t.ensureChild base name s) where
  created := by
    rw [paths_ensureChild]
    split
    · exact h
    next hnew => exact h.child hbase hnew
  evolve := by
    obtain ⟨i, hi⟩ := List.mem_iff_getElem?.1 hbase
    obtain ⟨j, -, hget⟩ := slots_ensureChild h hi name s
    obtain ⟨slot, hslot⟩ := (inStep_slots h).2.getElem? hi
    exact .single ⟨i, name, (List.getElem?_eq_some_iff.1 hslot).1, by rw [hget]⟩

theorem expands_ensureFrom {names : List String} (h : Path.Created t.paths)
    (hbase : base ∈ t.paths) (s : Bool) : t.Expands (ensureFrom s t base names) := by
  induction names generalizing t base with
  | nil => exact .refl h
  | cons name rest ih =>
      have hchild := expands_ensureChild h hbase name s
      refine hchild.trans (ih hchild.created ?_)
      rw [paths_ensureChild]
      split
      · assumption
      · simp

theorem expands_ensure (h : Path.Created t.paths) (p : Path) (s : Bool) :
    t.Expands (t.ensure p s) := expands_ensureFrom h h.root_mem s

end Tree

end ApiTypings
