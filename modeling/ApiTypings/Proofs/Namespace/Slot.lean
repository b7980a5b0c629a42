import ApiTypings.Namespace.Slot
import Mathlib.Data.List.Nodup
import Mathlib.Logic.Relation

/-!
Slots in step with each other.

Slots say the same thing in several places: a child knows its parent and the parent its children,
once by position and once by name, and the depth of a node follows from that of its parent.
`Slots.InStep` is what has to hold between them. Creating a child keeps it, and so does creating any
number of them.
-/

namespace ApiTypings

theorem mem_iff_lookup {α β : Type} [BEq α] [LawfulBEq α] {entries : List (α × β)}
    (h : (entries.map Prod.fst).Nodup) {key : α} {v : β} :
    (key, v) ∈ entries ↔ entries.lookup key = some v := by
  induction entries with
  | nil => simp
  | cons entry rest ih =>
      obtain ⟨k, w⟩ := entry
      obtain ⟨hk, hrest⟩ := List.nodup_cons.1 h
      rw [List.lookup_cons, List.mem_cons, Prod.mk.injEq, ih hrest]
      by_cases hkey : key = k
      · subst hkey
        have hnone : rest.lookup key = none :=
          List.lookup_eq_none_iff.2 fun p hp => bne_iff_ne.2 fun e =>
            hk (e ▸ List.mem_map.2 ⟨p, hp, rfl⟩)
        simp [hnone, eq_comm]
      · simp [hkey, beq_eq_false_iff_ne.2 hkey]

/-- A slot that is another one, but for its children. -/
structure Slot.Keeps (old s : Slot) : Prop where
  name : s.name = old.name
  index : s.index = old.index
  parent : s.parent = old.parent
  depth : s.depth = old.depth
  inGlobal : s.inGlobal = old.inGlobal

theorem Slot.Keeps.refl (s : Slot) : s.Keeps s := ⟨rfl, rfl, rfl, rfl, rfl⟩

theorem Slot.Keeps.adopt (s : Slot) (name : String) (index : Nat) : s.Keeps (s.adopt name index) :=
  ⟨rfl, rfl, rfl, rfl, rfl⟩

namespace Slots

variable {slots : List Slot} {parent i j : Nat} {name : String} {s c : Slot}

/-! ### One new node -/

/-- What slots have to do with each other. -/
structure InStep (slots : List Slot) : Prop where
  root : ∃ s, slots[0]? = some s ∧ s.parent = none
  index : ∀ (i : Nat) (s : Slot), slots[i]? = some s → s.index = i
  parent : ∀ (i : Nat) (s : Slot), slots[i]? = some s → i ≠ 0 → ∃ j < i, s.parent = some j
  children : ∀ (i : Nat) (s : Slot), slots[i]? = some s →
    s.children.Nodup ∧ s.children = s.childIndex.map Prod.snd
  names : ∀ (i : Nat) (s : Slot), slots[i]? = some s → (s.childIndex.map Prod.fst).Nodup
  linked : ∀ (i : Nat) (s : Slot), slots[i]? = some s → ∀ name j, (name, j) ∈ s.childIndex ↔
    ∃ c, slots[j]? = some c ∧ c.parent = some i ∧ c.name = name
  inGlobal : ∀ (i : Nat) (s : Slot), slots[i]? = some s →
    (s.inGlobal = true ↔ s.parent = some 0)
  depth_top : ∀ (i : Nat) (s : Slot), slots[i]? = some s →
    s.parent = none ∨ s.parent = some 0 → s.depth = 0
  depth_below : ∀ (i : Nat) (s : Slot), slots[i]? = some s → ∀ j above, s.parent = some j →
    j ≠ 0 → slots[j]? = some above → s.depth = above.depth + 1

theorem inStep_root (rootName : String) : InStep [Slot.root rootName] := by
  have hroot (i : Nat) (s : Slot) (h : [Slot.root rootName][i]? = some s) :
      i = 0 ∧ s = Slot.root rootName := by
    cases i with
    | zero => exact ⟨rfl, (Option.some.inj h).symm⟩
    | succ i => simp at h
  constructor
  · exact ⟨_, rfl, rfl⟩
  all_goals
    intro i s h
    obtain ⟨rfl, rfl⟩ := hroot i s h
  · rfl
  · exact fun h => absurd rfl h
  · exact ⟨List.nodup_nil, rfl⟩
  · exact List.nodup_nil
  · intro name j
    refine ⟨by simp [Slot.root], ?_⟩
    rintro ⟨c, hc, hparent, -⟩
    obtain ⟨-, rfl⟩ := hroot j c hc
    simp [Slot.root] at hparent
  · simp [Slot.root]
  · exact fun _ => rfl
  · intro j above hparent
    simp [Slot.root] at hparent

/-- A new node is in the last place, its parent knows it, and the other slots are as they were. -/
theorem getElem?_attach (hs : slots[parent]? = some s) (i : Nat) :
    (attach slots parent name)[i]? =
      if i = slots.length then some (s.below parent name slots.length)
      else if i = parent then some (s.adopt name slots.length) else slots[i]? := by
  have hlt : parent < slots.length := (List.getElem?_eq_some_iff.1 hs).1
  simp only [attach, hs, List.getElem?_append, List.length_set, List.getElem?_set]
  rcases Nat.lt_trichotomy i slots.length with hi | rfl | hi
  · rw [if_pos hi, if_neg (Nat.ne_of_lt hi)]
    by_cases hp : i = parent
    · rw [if_pos hp.symm, if_pos hlt, if_pos hp]
    · rw [if_neg (Ne.symm hp), if_neg hp]
  · simp
  · have hnone : slots[i]? = none := List.getElem?_eq_none (Nat.le_of_lt hi)
    have hne : i ≠ parent := by omega
    rw [if_neg (Nat.lt_asymm hi), if_neg (Nat.ne_of_gt hi), if_neg hne, hnone]
    exact List.getElem?_eq_none (by simp; omega)

theorem length_attach (hs : slots[parent]? = some s) :
    (attach slots parent name).length = slots.length + 1 := by
  simp [attach, hs]

/-- After a new node, a slot is that of the node, or that of an old node, which keeps its links but
for the parent's to the new child. -/
theorem attach_cases (hs : slots[parent]? = some s)
    (h : (attach slots parent name)[i]? = some c) :
    i = slots.length ∧ c = s.below parent name slots.length ∨
      ∃ old, slots[i]? = some old ∧ old.Keeps c ∧
        c = if i = parent then old.adopt name slots.length else old := by
  rw [getElem?_attach hs] at h
  split at h
  next hi => exact .inl ⟨hi, (Option.some.inj h).symm⟩
  next hi =>
    split at h
    next hp =>
      subst hp
      obtain rfl := Option.some.inj h
      exact .inr ⟨s, hs, .adopt s name _, (if_pos rfl).symm⟩
    next hp => exact .inr ⟨c, h, .refl c, (if_neg hp).symm⟩

theorem attach_of_old (hs : slots[parent]? = some s) (name : String) {old : Slot}
    (h : slots[i]? = some old) : ∃ c, (attach slots parent name)[i]? = some c ∧ old.Keeps c := by
  have hi : i ≠ slots.length := Nat.ne_of_lt (List.getElem?_eq_some_iff.1 h).1
  rw [getElem?_attach hs, if_neg hi]
  split
  next hp =>
    subst hp
    obtain rfl := Option.some.inj (hs.symm.trans h)
    exact ⟨_, rfl, .adopt s name _⟩
  · exact ⟨old, h, .refl old⟩

/-- The new node is a new child of its parent, and no other slot gets one. -/
theorem child_attach (hs : slots[parent]? = some s) {key : String} :
    (∃ c, (attach slots parent name)[j]? = some c ∧ c.parent = some i ∧ c.name = key) ↔
      (∃ c, slots[j]? = some c ∧ c.parent = some i ∧ c.name = key) ∨
        j = slots.length ∧ i = parent ∧ key = name := by
  constructor
  · rintro ⟨c, hc, hparent, hname⟩
    rcases attach_cases hs hc with ⟨rfl, rfl⟩ | ⟨old, hold, hkeeps, -⟩
    · exact .inr ⟨rfl, (Option.some.inj hparent).symm, hname.symm⟩
    · exact .inl ⟨old, hold, hkeeps.parent ▸ hparent, hkeeps.name ▸ hname⟩
  · rintro (⟨old, hold, hparent, hname⟩ | ⟨rfl, rfl, rfl⟩)
    · obtain ⟨c, hc, hkeeps⟩ := attach_of_old hs name hold
      exact ⟨c, hc, hkeeps.parent.trans hparent, hkeeps.name.trans hname⟩
    · exact ⟨_, by rw [getElem?_attach hs, if_pos rfl], rfl, rfl⟩

namespace InStep

theorem parent_eq_none (h : InStep slots) (hs : slots[i]? = some s) :
    s.parent = none ↔ i = 0 := by
  constructor
  · intro hnone
    by_contra hi
    obtain ⟨j, -, hj⟩ := h.parent i s hs hi
    simp [hnone] at hj
  · rintro rfl
    obtain ⟨r, hr, hnone⟩ := h.root
    rwa [← Option.some.inj (hr.symm.trans hs)]

theorem parent_lt (h : InStep slots) (hs : slots[i]? = some s) (hj : s.parent = some j) :
    j < i := by
  have hi : i ≠ 0 := fun hi => by simp [(h.parent_eq_none hs).2 hi] at hj
  obtain ⟨k, hk, hparent⟩ := h.parent i s hs hi
  exact Option.some.inj (hj.symm.trans hparent) ▸ hk

theorem child?_eq_some (h : InStep slots) (hs : slots[i]? = some s) :
    child? slots i name = some j ↔
      ∃ c, slots[j]? = some c ∧ c.parent = some i ∧ c.name = name := by
  rw [child?, hs, Option.bind_some, ← mem_iff_lookup (h.names i s hs), h.linked i s hs]

theorem lt_of_mem_childIndex (h : InStep slots) (hs : slots[i]? = some s)
    (hj : (name, j) ∈ s.childIndex) : j < slots.length := by
  obtain ⟨c, hc, -⟩ := (h.linked i s hs name j).1 hj
  exact (List.getElem?_eq_some_iff.1 hc).1

theorem not_mem_names (h : InStep slots) (hs : slots[i]? = some s)
    (hnew : child? slots i name = none) : name ∉ s.childIndex.map Prod.fst := by
  intro hmem
  obtain ⟨⟨key, j⟩, hentry, rfl⟩ := List.mem_map.1 hmem
  have hchild := (mem_iff_lookup (h.names i s hs)).1 hentry
  rw [child?, hs, Option.bind_some, hchild] at hnew
  simp at hnew

/-- A parent that takes up a child has each child once, in the list and by its name. -/
theorem children_adopt (h : InStep slots) (hs : slots[i]? = some s) :
    (s.adopt name slots.length).children.Nodup ∧ (s.adopt name slots.length).children =
      (s.adopt name slots.length).childIndex.map Prod.snd := by
  obtain ⟨hnodup, hvalues⟩ := h.children i s hs
  -- The new position is behind those of all children that there are.
  have hfresh : ∀ j ∈ s.children, j ≠ slots.length := by
    intro j hj
    obtain ⟨⟨key, k⟩, hentry, rfl⟩ := List.mem_map.1 (hvalues ▸ hj)
    exact Nat.ne_of_lt (h.lt_of_mem_childIndex hs hentry)
  refine ⟨List.nodup_append.2 ⟨hnodup, by simp, ?_⟩, ?_⟩
  · simpa using hfresh
  · simp [Slot.adopt, hvalues]

theorem names_adopt (h : InStep slots) (hs : slots[i]? = some s)
    (hnew : child? slots i name = none) :
    ((s.adopt name j).childIndex.map Prod.fst).Nodup := by
  have hfresh := h.not_mem_names hs hnew
  have hne : ∀ key ∈ s.childIndex.map Prod.fst, key ≠ name := fun key hkey e =>
    hfresh (e ▸ hkey)
  rw [Slot.adopt, List.map_append]
  exact List.nodup_append.2 ⟨h.names i s hs, by simp, by simpa using hne⟩

/-- A new node under a name that its parent has no child of keeps slots in step. -/
theorem attach (h : InStep slots) (hs : slots[parent]? = some s)
    (hnew : child? slots parent name = none) : InStep (attach slots parent name) := by
  have hlt : parent < slots.length := (List.getElem?_eq_some_iff.1 hs).1
  have hparent_none := h.parent_eq_none hs
  constructor
  case root =>
    obtain ⟨r, hr, hnone⟩ := h.root
    obtain ⟨c, hc, hkeeps⟩ := attach_of_old hs name hr
    exact ⟨c, hc, hkeeps.parent.trans hnone⟩
  all_goals
    intro i c hc
    rcases attach_cases hs hc with ⟨rfl, rfl⟩ | ⟨old, hold, hkeeps, hc⟩
  case index.inl => rfl
  case index.inr => exact hkeeps.index.trans (h.index i old hold)
  case parent.inl => exact fun _ => ⟨parent, hlt, rfl⟩
  case parent.inr => exact fun hi => hkeeps.parent ▸ h.parent i old hold hi
  case children.inl => exact ⟨List.nodup_nil, rfl⟩
  case children.inr =>
    subst hc
    split
    · exact h.children_adopt hold
    · exact h.children i old hold
  case names.inl => exact List.nodup_nil
  case names.inr =>
    subst hc
    split
    next hi => exact h.names_adopt hold (hi ▸ hnew)
    · exact h.names i old hold
  case linked.inl =>
    intro key j
    rw [child_attach hs]
    refine ⟨by simp [Slot.below], ?_⟩
    rintro (⟨d, hd, hparent, -⟩ | ⟨-, hi, -⟩)
    · -- An old node has an old parent.
      have hj := (List.getElem?_eq_some_iff.1 hd).1
      exact absurd (h.parent_lt hd hparent) (Nat.lt_asymm hj)
    · exact absurd hi (Nat.ne_of_gt hlt)
  case linked.inr =>
    intro key j
    rw [child_attach hs, ← h.linked i old hold, hc]
    split
    next hi => simp [Slot.adopt, hi, and_comm]
    next hi => simp [hi]
  case inGlobal.inl => simp [Slot.below, hparent_none]
  case inGlobal.inr => rw [hkeeps.inGlobal, hkeeps.parent, h.inGlobal i old hold]
  case depth_top.inl =>
    rintro (hnone | hzero)
    · simp [Slot.below] at hnone
    · obtain rfl := Option.some.inj hzero
      simp [Slot.below, hparent_none.2 rfl]
  case depth_top.inr =>
    rw [hkeeps.parent, hkeeps.depth]
    exact h.depth_top i old hold
  case depth_below.inl =>
    intro j above hj hne habove
    obtain rfl := Option.some.inj hj
    obtain ⟨d, hd, hkeeps⟩ := attach_of_old hs name hs
    obtain rfl := Option.some.inj (hd.symm.trans habove)
    have hnot : s.parent ≠ none := mt hparent_none.1 hne
    simp [Slot.below, hkeeps.depth, hnot]
  case depth_below.inr =>
    intro j above hj hne habove
    rw [hkeeps.parent] at hj
    obtain ⟨d, hd⟩ : ∃ d, slots[j]? = some d := by
      have hji := h.parent_lt hold hj
      have hi := (List.getElem?_eq_some_iff.1 hold).1
      exact ⟨_, List.getElem?_eq_getElem (Nat.lt_trans hji hi)⟩
    obtain ⟨e, he, hkeeps'⟩ := attach_of_old hs name hd
    obtain rfl := Option.some.inj (he.symm.trans habove)
    rw [hkeeps.depth, hkeeps'.depth, h.depth_below i old hold j d hj hne hd]

theorem getOrCreate (h : InStep slots) (hs : slots[parent]? = some s) (name : String) :
    InStep (getOrCreate slots parent name).1 := by
  unfold Slots.getOrCreate
  split
  · exact h
  next hnew => exact h.attach hs hnew

end InStep

/-! ### Many new nodes -/

/-- Slots that others become by getting or creating children, one after another. -/
def Evolve : List Slot → List Slot → Prop :=
  Relation.ReflTransGen fun slots slots' =>
    ∃ parent name, parent < slots.length ∧ slots' = (getOrCreate slots parent name).1

theorem InStep.evolve {slots' : List Slot} (h : InStep slots) (hevolve : Evolve slots slots') :
    InStep slots' := by
  induction hevolve with
  | refl => exact h
  | tail _ hstep ih =>
      obtain ⟨parent, name, hlt, rfl⟩ := hstep
      exact ih.getOrCreate (List.getElem?_eq_getElem hlt) name

end Slots

end ApiTypings
