import ApiTypings.Proofs.Document.Lookup
import Mathlib.Data.List.Forall2

/-!
Trees that are told apart by nothing but the order of fields.

Two trees are alike if they have the same nodes, where the documents of a node may have their fields
in different orders. Whatever is done to both of them leaves them alike. What makes them so in the
first place can be read off the descriptions: they mention the same paths in the same order, and
their records merge, at each path, into documents with the same values under all keys.
-/

namespace ApiTypings

/-- Two nodes that differ in no more than the order of the fields in their documents. -/
structure Node.Alike (n m : Node) : Prop where
  path : n.path = m.path
  doc : n.doc.get? = m.doc.get?
  synthetic : n.synthetic = m.synthetic
  resolution : n.resolution = m.resolution

theorem Node.Alike.refl (n : Node) : n.Alike n := ⟨rfl, rfl, rfl, rfl⟩

/-- Functions that agree on related elements give the same list. -/
theorem map_eq_of_forall₂ {α β γ : Type} {R : α → β → Prop} {f : α → γ} {g : β → γ} {xs : List α}
    {ys : List β} (h : List.Forall₂ R xs ys) (hfg : ∀ a ∈ xs, ∀ b, R a b → f a = g b) :
    xs.map f = ys.map g := by
  induction h with
  | nil => rfl
  | cons hab _ ih =>
      obtain ⟨hhead, hrest⟩ := List.forall_mem_cons.1 hfg
      rw [List.map_cons, List.map_cons, hhead _ hab, ih hrest]

namespace Tree

/-- Two trees with the same nodes, but for the order of the fields in the documents. -/
structure Alike (t u : Tree) : Prop where
  rootName : t.rootName = u.rootName
  version : t.version = u.version
  fromEnd : t.fromEnd = [] ∧ u.fromEnd = []
  nodes : List.Forall₂ Node.Alike t.nodes u.nodes

namespace Alike

variable {t u : Tree}

theorem paths (h : Alike t u) : t.paths = u.paths :=
  map_eq_of_forall₂ h.nodes fun _ _ _ hnm => hnm.path

theorem size (h : Alike t u) : t.size = u.size := h.nodes.length_eq

theorem has (h : Alike t u) (p : Path) : t.has p = u.has p :=
  Bool.eq_iff_iff.2 (by rw [has_iff, has_iff, h.paths])

theorem nodeAt (h : Alike t u) (p : Path) : (t.nodeAt p).Alike (u.nodeAt p) := by
  unfold Tree.nodeAt
  generalize t.nodes = ns, u.nodes = ms, h.nodes = hnodes
  induction hnodes with
  | nil => exact .refl _
  | @cons n m ns ms hnm _ ih =>
      rw [List.find?_cons, List.find?_cons, ← hnm.path]
      split
      · exact hnm
      · exact ih

theorem childrenOf (h : Alike t u) (p : Path) :
    List.Forall₂ Node.Alike (t.childrenOf p) (u.childrenOf p) := by
  refine List.rel_filter (fun n m hnm => ?_) h.nodes
  simp only [hnm.path]

theorem fullName (h : Alike t u) (p : Path) : t.fullName p = u.fullName p := by
  rw [fullName_of_fromEnd h.fromEnd.1, fullName_of_fromEnd h.fromEnd.2, h.rootName]

theorem modify (h : Alike t u) (p : Path) {f : Node → Node}
    (hf : ∀ n m : Node, n.Alike m → (f n).Alike (f m)) : Alike (t.modify p f) (u.modify p f) where
  rootName := h.rootName
  version := h.version
  fromEnd := h.fromEnd
  nodes := by
    refine List.rel_map (fun n m hnm => ?_) h.nodes
    rw [← hnm.path]
    split
    · exact hf n m hnm
    · exact hnm

theorem ensureChild (h : Alike t u) (parent : Path) (name : String) (s : Bool) :
    Alike (t.ensureChild parent name s) (u.ensureChild parent name s) := by
  rw [Tree.ensureChild, Tree.ensureChild, ← h.has]
  split
  · split
    · exact h
    · exact h.modify _ fun n m hnm => ⟨hnm.path, hnm.doc, rfl, hnm.resolution⟩
  · exact ⟨h.rootName, h.version, h.fromEnd, List.rel_append h.nodes (.cons (.refl _) .nil)⟩

theorem ensureFrom (h : Alike t u) (s : Bool) (base : Path) (names : List String) :
    Alike (ensureFrom s t base names) (ensureFrom s u base names) := by
  induction names generalizing t u base with
  | nil => exact h
  | cons name rest ih => exact ih (h.ensureChild base name s) (base ++ [name])

theorem ensure (h : Alike t u) (p : Path) (s : Bool) : Alike (t.ensure p s) (u.ensure p s) :=
  h.ensureFrom s [] p

end Alike

/-! ### Descriptions of trees that are alike -/

/-- A tree of some version in which no node is synthetic. -/
structure Recorded (version : String) (t : Tree) : Prop where
  version : t.version = version
  synthetic : ∀ n ∈ t.nodes, n.synthetic = false

namespace Recorded

variable {version : String} {t : Tree}

theorem modify (h : Recorded version t) (p : Path) {f : Node → Node}
    (hf : ∀ n : Node, n.synthetic = false → (f n).synthetic = false) :
    Recorded version (t.modify p f) where
  version := h.version
  synthetic := by
    refine List.forall_mem_map.2 fun n hn => ?_
    split
    · exact hf n (h.synthetic n hn)
    · exact h.synthetic n hn

theorem ensureFrom (h : Recorded version t) (base : Path) (names : List String) :
    Recorded version (ensureFrom false t base names) := by
  induction names generalizing t base with
  | nil => exact h
  | cons name rest ih =>
      refine ih ?_ (base ++ [name])
      rw [Tree.ensureChild]
      split
      · exact h.modify _ fun _ _ => rfl
      · exact ⟨h.version, List.forall_mem_append.2 ⟨h.synthetic, by simp [Node.blank]⟩⟩

theorem addRecords (h : Recorded version t) {entries : List (String × Json)}
    (hok : (t.addRecords entries).outcome = .ok ()) :
    Recorded version (t.addRecords entries).tree := by
  induction entries generalizing t with
  | nil => exact h
  | cons entry rest ih =>
      obtain ⟨key, v⟩ := entry
      cases v with
      | obj api =>
          rw [Tree.addRecords] at hok ⊢
          cases hadd : (t.addRecord api key).outcome with
          | error fault => simp [Progress.andThen_of_error hadd] at hok
          | ok q =>
              rw [Progress.andThen_of_ok hadd] at hok ⊢
              obtain ⟨-, htree⟩ | ⟨p, doc, -, -, htree⟩ := addRecord_of_ok hadd
              · rw [htree] at hok ⊢
                exact ih h hok
              · rw [htree] at hok ⊢
                exact ih ((h.ensureFrom [] p).modify p fun _ hn => hn) hok
      | _ => exact ih h hok

end Recorded

theorem recorded_build {apis : Fields} {rootName : String} {t : Tree}
    (h : (build (.obj apis) rootName).outcome = .ok t) : Recorded (versionOf apis) t := by
  have hroot : Recorded (versionOf apis) (rooted rootName (versionOf apis)) :=
    ⟨rfl, by simp [rooted, Node.blank]⟩
  rw [outcome_build] at h
  cases hadd : ((rooted rootName (versionOf apis)).addRecords apis).outcome with
  | error fault => simp [hadd, Except.map] at h
  | ok _ =>
      obtain rfl := Except.ok.inj ((congrArg (Except.map _) hadd).symm.trans h)
      exact hroot.addRecords hadd

/-- Two descriptions that state the same version, mention the same paths in the same order, and
whose records merge into the same at each path. -/
structure SameContent (rootName : String) (apis apis' : Fields) : Prop where
  version : versionOf apis = versionOf apis'
  paths : ([] :: mentions (placements rootName apis)).eraseDups =
    ([] :: mentions (placements rootName apis')).eraseDups
  docs : ∀ p, (Document.mergeAll (documentsAt (placements rootName apis) p)).map Fields.get? =
    (Document.mergeAll (documentsAt (placements rootName apis') p)).map Fields.get?

theorem nodes_eq_map {t : Tree} (h : t.paths.Nodup) : t.nodes = t.paths.map t.nodeAt := by
  have hself : t.nodes.map (fun n => t.nodeAt n.path) = t.nodes.map id :=
    List.map_congr_left fun n hn => nodeAt_path h hn
  rw [paths, List.map_map]
  exact (hself.trans (List.map_id _)).symm

namespace SameContent

variable {rootName : String} {apis apis' : Fields} {t u : Tree}

theorem symm (h : SameContent rootName apis apis') : SameContent rootName apis' apis :=
  ⟨h.version.symm, h.paths.symm, fun p => (h.docs p).symm⟩

theorem alike (h : SameContent rootName apis apis')
    (ht : (build (.obj apis) rootName).outcome = .ok t)
    (hu : (build (.obj apis') rootName).outcome = .ok u) : t.Alike u := by
  have hmt := mirrors_build ht
  have hmu := mirrors_build hu
  have hpaths : u.paths = t.paths := by rw [hmt.paths, hmu.paths, h.paths]
  -- Building leaves nothing at a node but its document.
  have hnode (p : Path) (hp : p ∈ t.paths) : (t.nodeAt p).Alike (u.nodeAt p) := by
    refine ⟨?_, ?_, ?_, ?_⟩
    · rw [path_nodeAt, path_nodeAt]
    · have hdocs := h.docs p
      rw [hmt.docs, hmu.docs] at hdocs
      exact Except.ok.inj hdocs
    · rw [(recorded_build ht).synthetic _ (nodeAt_mem_nodes hp),
        (recorded_build hu).synthetic _ (nodeAt_mem_nodes (hpaths ▸ hp))]
    · rw [hmt.resolution, hmu.resolution]
  refine ⟨hmt.root.trans hmu.root.symm, ?_, ⟨hmt.fromEnd, hmu.fromEnd⟩, ?_⟩
  · rw [(recorded_build ht).version, (recorded_build hu).version, h.version]
  · rw [nodes_eq_map hmt.nodup, nodes_eq_map hmu.nodup, hpaths, List.forall₂_map_left_iff,
      List.forall₂_map_right_iff]
    exact List.forall₂_same.2 hnode

/-- The one tree can be built if the other can. -/
theorem build (h : SameContent rootName apis apis')
    (ht : (build (.obj apis) rootName).outcome = .ok t) :
    ∃ u, (Tree.build (.obj apis') rootName).outcome = .ok u := by
  refine build_of_mergeAll fun p => ?_
  have hdocs := h.docs p
  rw [(mirrors_build ht).docs] at hdocs
  cases hdoc : Document.mergeAll (documentsAt (placements rootName apis') p) with
  | error fault => simp [hdoc, Except.map] at hdocs
  | ok doc => exact ⟨doc, rfl⟩

end SameContent

end Tree

end ApiTypings
