import ApiTypings.Exclusion.Resolve
import ApiTypings.Proofs.Namespace.Node
import Mathlib.Logic.Relation

/-!
What inheritance prescribes.

A node extends at most one other node, the one at the path of the name that its document extends.
What a node excludes is what the documents of all nodes exclude that are reached in this way, and
its record is the record of its document without the members of those names. `Tree.Prescribes` says
so without mentioning any order of computation.

`Tree.Settles` describes the same by a derivation from the topmost node down. A derivation fixes its
result, and there is none for a node whose extensions run in a circle.
-/

namespace ApiTypings

open Exclusion

/-- Whether a member's name is among some texts; only a text can be. -/
def Json.isTextIn (names : List String) : Json → Bool
  | .str s => names.contains s
  | _ => false

/-- A record without the methods and properties of excluded names. -/
def TypeRecord.without (record : TypeRecord) (excluded : Exclusions) : TypeRecord :=
  { record with
    methods := record.methods.filter fun m => !m.name.isTextIn excluded.methods
    properties := record.properties.filter fun p => !p.name.isTextIn excluded.properties }

namespace Tree

/-- The path that a node extends, if it extends any. -/
def extended? (t : Tree) (p : Path) : Option Path :=
  (TypeRecord.extendsOf? (t.nodeAt p).doc).map (Path.ofName t.rootName)

/-- One node extends another. -/
def Extends (t : Tree) (p q : Path) : Prop := t.extended? p = some q

/-- The record of a node's document, under the name of the node if it has none itself. -/
def wholeRecord (t : Tree) (p : Path) : Except Fault TypeRecord :=
  TypeRecord.ofFields (t.nodeAt p).doc (t.fullName p)

/-- A name that a node excludes: the document of the node itself, or of one reached by any number
of extensions, lists it under the kind. -/
def Excludes (t : Tree) (kind : OwnExclusions → List String) (p : Path) (name : String) : Prop :=
  ∃ q own, Relation.ReflTransGen t.Extends p q ∧
    OwnExclusions.ofJson ((t.nodeAt q).doc.get "excludes") = .ok own ∧ name ∈ kind own

/-- A resolution that is what the documents prescribe for a node. -/
structure Prescribes (t : Tree) (p : Path) (r : Resolution) : Prop where
  methods : ∀ name, name ∈ r.excluded.methods ↔ t.Excludes OwnExclusions.methods p name
  properties : ∀ name, name ∈ r.excluded.properties ↔ t.Excludes OwnExclusions.properties p name
  record : ∃ whole, t.wholeRecord p = .ok whole ∧ r.record = whole.without r.excluded

/-- The resolution of a node, derived from that of the node it extends. -/
inductive Settles (t : Tree) : Path → Resolution → Prop
  | top {p : Path} {whole left : TypeRecord} (hwhole : t.wholeRecord p = .ok whole)
      (htop : t.extended? p = none)
      (hleft : (removeExcluded whole ((ownOf whole).union .empty)).outcome = .ok left) :
      Settles t p ⟨left, (ownOf whole).union .empty⟩
  | under {p q : Path} {whole left : TypeRecord} {above : Resolution}
      (hwhole : t.wholeRecord p = .ok whole) (hextends : t.Extends p q)
      (habove : Settles t q above)
      (hleft : (removeExcluded whole ((ownOf whole).union above.excluded)).outcome = .ok left) :
      Settles t p ⟨left, (ownOf whole).union above.excluded⟩

/-- A node from which one comes up to a node that extends nothing, over documents that can all be
read. -/
inductive Climbs (t : Tree) : Path → Prop
  | top {p : Path} {whole : TypeRecord} (hwhole : t.wholeRecord p = .ok whole)
      (htop : t.extended? p = none) : Climbs t p
  | under {p q : Path} {whole : TypeRecord} (hwhole : t.wholeRecord p = .ok whole)
      (hextends : t.Extends p q) (habove : Climbs t q) : Climbs t p

end Tree

/-! ### Removing members -/

namespace Exclusion

/-- A name is dropped just if it is one of the texts; other names can only end the removal. -/
theorem isAmong_texts {names : List String} {name : Json} {b : Bool}
    (h : name.isAmong (names.map .text) = .ok b) : b = name.isTextIn names := by
  rw [Json.isAmong, Json.comparable] at h
  cases hkey : name.nameKey? with
  | none => simp [hkey, Except.map] at h
  | some key =>
      have hb : (names.map NameKey.text).contains key = b := by simpa [hkey, Except.map] using h
      subst hb
      cases name with
      | float x =>
          obtain rfl := Option.some.inj hkey
          split <;> simp [Json.isTextIn]
      | arr items => simp [Json.nameKey?] at hkey
      | obj fields => simp [Json.nameKey?] at hkey
      | _ =>
          obtain rfl := Option.some.inj hkey
          simp [Json.isTextIn]

theorem membersBeyond_texts {α : Type} {nameOf : α → Json} {names : List String}
    {members kept : List α} (h : membersBeyond nameOf (names.map .text) members = .ok kept) :
    kept = members.filter fun m => !(nameOf m).isTextIn names := by
  induction members generalizing kept with
  | nil =>
      simp only [membersBeyond, Except.ok.injEq] at h
      simp [← h]
  | cons m rest ih =>
      rw [membersBeyond] at h
      cases hm : (nameOf m).isAmong (names.map .text) with
      | error fault => simp [hm, bind, Except.bind] at h
      | ok dropped =>
          cases hrest : membersBeyond nameOf (names.map .text) rest with
          | error fault => simp [hm, hrest, bind, Except.bind] at h
          | ok others =>
              simp only [hm, hrest, bind, Except.bind, pure, Except.pure, Except.ok.injEq] at h
              rw [← h, ih hrest, List.filter_cons, ← isAmong_texts hm]
              cases dropped <;> rfl

theorem remaining_of_ok {α : Type} {nameOf : α → Json} {names : List String}
    {members kept : List α} (h : remaining nameOf names members = .ok kept) :
    kept = members.filter fun m => !(nameOf m).isTextIn names := by
  unfold remaining at h
  split at h
  next hnames =>
    obtain rfl := List.isEmpty_iff.1 hnames
    have hall : ∀ m ∈ members, (!(nameOf m).isTextIn []) = true := by
      intro m _
      cases nameOf m <;> rfl
    rw [List.filter_eq_self.2 hall]
    simpa using h.symm
  · exact membersBeyond_texts h

theorem outcome_removeExcluded (whole : TypeRecord) (excluded : Exclusions) :
    (removeExcluded whole excluded).outcome =
      (remaining Method.name excluded.methods whole.methods).bind fun methods =>
        (remaining Property.name excluded.properties whole.properties).map fun properties =>
          { whole with methods, properties } := by
  rw [removeExcluded, Report.outcome_bind, Report.outcome_ofExcept]
  congr 1
  funext methods
  dsimp only
  split
  · rw [Report.outcome_bind]
    rfl
  · rw [Report.outcome_bind, Report.outcome_tell, Except.bind, Report.outcome_bind]
    rfl

/-- If nothing ends the removal, the excluded members are gone and all else is as it was. -/
theorem removeExcluded_of_ok {whole left : TypeRecord} {excluded : Exclusions}
    (h : (removeExcluded whole excluded).outcome = .ok left) : left = whole.without excluded := by
  rw [outcome_removeExcluded] at h
  cases hm : remaining Method.name excluded.methods whole.methods with
  | error fault => simp [hm, Except.bind] at h
  | ok methods =>
      cases hp : remaining Property.name excluded.properties whole.properties with
      | error fault => simp [hm, hp, Except.bind, Except.map] at h
      | ok properties =>
          rw [TypeRecord.without, ← remaining_of_ok hm, ← remaining_of_ok hp]
          simpa [hm, hp, Except.bind, Except.map] using h.symm

end Exclusion

/-! ### What a derivation fixes -/

namespace Tree

variable {t u : Tree} {p q : Path} {r : Resolution} {whole : TypeRecord}

theorem extended?_of_whole (h : t.wholeRecord p = .ok whole) :
    t.extended? p = whole.extends?.map (Path.ofName t.rootName) := by
  rw [extended?, (extends?_of_ofFields h).1]

theorem extended?_of_doc_nil (h : (t.nodeAt p).doc = []) : t.extended? p = none := by
  simp [extended?, h, TypeRecord.extendsOf?, Fields.get, Json.asText]

theorem path_mem_of_extends (h : t.Extends p q) : p ∈ t.paths := by
  refine path_mem_of_doc fun hdoc => ?_
  exact absurd ((extended?_of_doc_nil hdoc).symm.trans h) (by simp)

theorem excludes_of_whole (h : t.wholeRecord p = .ok whole) :
    OwnExclusions.ofJson ((t.nodeAt p).doc.get "excludes") = .ok whole.excludes := by
  unfold wholeRecord TypeRecord.ofFields at h
  cases he : OwnExclusions.ofJson ((t.nodeAt p).doc.get "excludes") with
  | error fault => simp [he, bind, Except.bind] at h
  | ok own =>
      simp only [he, bind, Except.bind, pure, Except.pure, Except.ok.injEq] at h
      rw [← h]

/-- A node excludes what it lists itself and what the node that it extends excludes. -/
theorem excludes_iff {kind : OwnExclusions → List String} {name : String}
    (h : t.wholeRecord p = .ok whole) :
    t.Excludes kind p name ↔
      name ∈ kind whole.excludes ∨ ∃ q, t.Extends p q ∧ t.Excludes kind q name := by
  constructor
  · rintro ⟨x, own, hreach, hown, hname⟩
    rcases Relation.ReflTransGen.cases_head hreach with rfl | ⟨q, hpq, hqx⟩
    · rw [excludes_of_whole h] at hown
      exact .inl (Except.ok.inj hown ▸ hname)
    · exact .inr ⟨q, hpq, x, own, hqx, hown, hname⟩
  · rintro (hname | ⟨q, hpq, x, own, hqx, hown, hname⟩)
    · exact ⟨p, whole.excludes, .refl, excludes_of_whole h, hname⟩
    · exact ⟨x, own, .head hpq hqx, hown, hname⟩

theorem Extends.unique {q' : Path} (h : t.Extends p q) (h' : t.Extends p q') : q = q' :=
  Option.some.inj (h.symm.trans h')

/-- The exclusions of a derivation are those of the node and of all that it extends. The kind of
the names does not matter, as long as it is told apart in the same way everywhere. -/
theorem Settles.mem_excluded_iff {kind : OwnExclusions → List String}
    {part : Exclusions → List String} (hempty : part .empty = [])
    (hunion : ∀ record e, part ((ownOf record).union e) = kind record.excludes ++ part e)
    (h : t.Settles p r) (name : String) : name ∈ part r.excluded ↔ t.Excludes kind p name := by
  induction h with
  | top hwhole htop _ =>
      rw [hunion, hempty, List.append_nil, excludes_iff hwhole]
      simp [Extends, htop]
  | under hwhole hextends _ _ ih =>
      rw [hunion, List.mem_append, ih, excludes_iff hwhole]
      refine or_congr_right ⟨fun hq => ⟨_, hextends, hq⟩, ?_⟩
      rintro ⟨q', hq', hname⟩
      exact hextends.unique hq' ▸ hname

/-- A derived resolution is the prescribed one. -/
theorem Settles.prescribes (h : t.Settles p r) : t.Prescribes p r where
  methods := h.mem_excluded_iff rfl fun _ _ => rfl
  properties := h.mem_excluded_iff rfl fun _ _ => rfl
  record := by
    cases h with
    | top hwhole _ hleft => exact ⟨_, hwhole, removeExcluded_of_ok hleft⟩
    | under hwhole _ _ hleft => exact ⟨_, hwhole, removeExcluded_of_ok hleft⟩

/-- There is at most one derivation for a node. -/
theorem Settles.unique {r' : Resolution} (h : t.Settles p r) (h' : t.Settles p r') : r = r' := by
  induction h generalizing r' with
  | top hwhole htop hleft =>
      cases h' with
      | top hwhole' _ hleft' =>
          obtain rfl := Except.ok.inj (hwhole.symm.trans hwhole')
          rw [Except.ok.inj (hleft.symm.trans hleft')]
      | under _ hextends' _ _ => exact absurd (htop.symm.trans hextends') (by simp)
  | under hwhole hextends _ hleft ih =>
      cases h' with
      | top _ htop' _ => exact absurd (htop'.symm.trans hextends) (by simp)
      | under hwhole' hextends' habove' hleft' =>
          obtain rfl := Except.ok.inj (hwhole.symm.trans hwhole')
          obtain rfl := hextends.unique hextends'
          obtain rfl := ih habove'
          rw [Except.ok.inj (hleft.symm.trans hleft')]

theorem Settles.climbs (h : t.Settles p r) : t.Climbs p := by
  induction h with
  | top hwhole htop _ => exact .top hwhole htop
  | under hwhole hextends _ _ ih => exact .under hwhole hextends ih

theorem Climbs.above (h : t.Climbs p) (hpq : t.Extends p q) : t.Climbs q := by
  cases h with
  | top _ htop => exact absurd (htop.symm.trans hpq) (by simp)
  | under _ hextends habove => exact hextends.unique hpq ▸ habove

theorem Climbs.reaches (h : t.Climbs p) (hpx : Relation.ReflTransGen t.Extends p x) :
    t.Climbs x := by
  induction hpx with
  | refl => exact h
  | tail _ hstep ih => exact ih.above hstep

theorem Climbs.readable (h : t.Climbs p) : ∃ whole, t.wholeRecord p = .ok whole := by
  cases h with
  | top hwhole _ => exact ⟨_, hwhole⟩
  | under hwhole _ _ => exact ⟨_, hwhole⟩

/-- A node that reaches itself cannot be climbed from, and so it has no derivation. -/
theorem Climbs.not_circular (h : t.Climbs p) : ¬Relation.TransGen t.Extends p p := by
  induction h with
  | top _ htop =>
      intro hcircle
      obtain ⟨q, hpq, -⟩ := Relation.TransGen.head'_iff.1 hcircle
      exact absurd (htop.symm.trans hpq) (by simp)
  | under _ hextends _ ih =>
      intro hcircle
      obtain ⟨q, hpq, hqp⟩ := Relation.TransGen.head'_iff.1 hcircle
      obtain rfl := hextends.unique hpq
      exact ih (.tail' hqp hextends)

/-! ### Trees with the same documents -/

/-- Two trees that say the same of every path, whatever has been resolved in them. -/
structure SameDocuments (t u : Tree) : Prop where
  rootName : u.rootName = t.rootName
  fullName : ∀ p, u.fullName p = t.fullName p
  doc : ∀ p, (u.nodeAt p).doc = (t.nodeAt p).doc

theorem SameDocuments.wholeRecord (h : SameDocuments t u) (p : Path) :
    u.wholeRecord p = t.wholeRecord p := by
  rw [Tree.wholeRecord, Tree.wholeRecord, h.doc, h.fullName]

theorem SameDocuments.extended? (h : SameDocuments t u) (p : Path) :
    u.extended? p = t.extended? p := by
  rw [Tree.extended?, Tree.extended?, h.doc, h.rootName]

theorem SameDocuments.extends_iff (h : SameDocuments t u) : u.Extends p q ↔ t.Extends p q := by
  rw [Extends, Extends, h.extended?]

theorem SameDocuments.extends_eq (h : SameDocuments t u) : u.Extends = t.Extends :=
  funext fun _ => funext fun _ => propext h.extends_iff

theorem SameDocuments.symm (h : SameDocuments t u) : SameDocuments u t :=
  ⟨h.rootName.symm, fun p => (h.fullName p).symm, fun p => (h.doc p).symm⟩

theorem SameDocuments.trans {v : Tree} (h : SameDocuments t u) (h' : SameDocuments u v) :
    SameDocuments t v :=
  ⟨h'.rootName.trans h.rootName, fun p => (h'.fullName p).trans (h.fullName p),
    fun p => (h'.doc p).trans (h.doc p)⟩

/-- What is derived depends on the documents alone. -/
theorem Settles.congr (hs : SameDocuments t u) (h : t.Settles p r) : u.Settles p r := by
  induction h with
  | top hwhole htop hleft =>
      exact .top (by rw [hs.wholeRecord, hwhole]) (by rw [hs.extended?, htop]) hleft
  | under hwhole hextends _ hleft ih =>
      exact .under (by rw [hs.wholeRecord, hwhole]) (hs.extends_iff.2 hextends) ih hleft

theorem Climbs.congr (hs : SameDocuments t u) (h : t.Climbs p) : u.Climbs p := by
  induction h with
  | top hwhole htop => exact .top (by rw [hs.wholeRecord, hwhole]) (by rw [hs.extended?, htop])
  | under hwhole hextends _ ih =>
      exact .under (by rw [hs.wholeRecord, hwhole]) (hs.extends_iff.2 hextends) ih

end Tree

end ApiTypings
