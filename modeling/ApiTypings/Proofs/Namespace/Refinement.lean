import ApiTypings.Namespace.Build
import ApiTypings.Proofs.Namespace.Node

/-!
A tree is a map from paths to documents.

What building makes of a description can be said without any tree. Its usable records each have a
path; the nodes are the paths that are mentioned on the way to these, in the order of their first
mention, and the document of a node is the merge of the records of its path, in the order of the
description. `Tree.Mirrors` states this of the records added so far, and every record that is added
keeps it.
-/

namespace ApiTypings

namespace Document

/-- Merges a document into a target, as a fault if anything cuts the merge short. -/
def mergeInto (target source : Fields) : Except Fault Fields :=
  let r := mergeFields source target
  match r.fault with
  | none => .ok r.value
  | some fault => .error fault

/-- The merge of documents, one after another, into an empty one. -/
def mergeAll (docs : List Fields) : Except Fault Fields := docs.foldlM mergeInto []

theorem mergeAll_concat (docs : List Fields) (doc : Fields) :
    mergeAll (docs ++ [doc]) = (mergeAll docs).bind fun target => mergeInto target doc := by
  simp only [mergeAll, List.foldlM_append, List.foldlM_cons, List.foldlM_nil, bind_pure]
  rfl

theorem mergeInto_eq_ok {target source : Fields} (h : (mergeFields source target).fault = none) :
    mergeInto target source = .ok (mergeFields source target).value := by
  simp [mergeInto, h]

end Document

/-- The path that a record of a name is placed at: the root's own name is the root's. -/
def Path.ofRecord (rootName name : String) : Path :=
  if name = rootName then [] else ofName rootName name

namespace Tree

/-- The path of an entry that is a usable record, with its document. -/
def placement? (rootName : String) : String × Json → Option (Path × Fields)
  | (key, .obj api) => (recordName? api key).map fun name => (Path.ofRecord rootName name, api)
  | _ => none

/-- The usable records of a description with their paths, in order. -/
def placements (rootName : String) (apis : Fields) : List (Path × Fields) :=
  apis.filterMap (placement? rootName)

/-- The paths that placed records mention, in order and with repetitions. -/
def mentions (placed : List (Path × Fields)) : List Path := placed.flatMap (·.1.steps)

/-- The documents of the records placed at a path, in order. -/
def documentsAt (placed : List (Path × Fields)) (p : Path) : List Fields :=
  (placed.filter (·.1 == p)).map Prod.snd

/-- A name places a record if it is not empty and either the record's own name or, where the own
name counts as absent, the key. -/
theorem recordName?_eq_some {api : Fields} {key name : String} :
    recordName? api key = some name ↔
      name ≠ "" ∧ (api.get "name" = .str name ∨ (api.get "name").truthy = false ∧ key = name) := by
  unfold recordName?
  cases h : api.get "name" <;> simp [Json.truthy, Json.text?, Option.filter_eq_some_iff]
  all_goals grind

/-- A tree that holds the placed records and nothing else. -/
structure Mirrors (rootName : String) (placed : List (Path × Fields)) (t : Tree) : Prop where
  root : t.rootName = rootName
  fromEnd : t.fromEnd = []
  paths : t.paths = ([] :: mentions placed).eraseDups
  docs : ∀ p, Document.mergeAll (documentsAt placed p) = .ok (t.nodeAt p).doc
  resolution : ∀ p, (t.nodeAt p).resolution = none

theorem mirrors_rooted (rootName version : String) :
    Mirrors rootName [] (rooted rootName version) where
  root := rfl
  fromEnd := rfl
  paths := rfl
  docs p := by
    by_cases h : p = [] <;> simp [rooted, nodeAt, Node.blank, h] <;> rfl
  resolution p := by
    by_cases h : p = [] <;> simp [rooted, nodeAt, Node.blank, h]

/-- What adding a record comes to, if it succeeds: an unusable record changes nothing, and the
document of a usable one is merged into the node at its path. -/
theorem addRecord_of_ok {t : Tree} {api : Fields} {key : String} {q : Path}
    (h : (t.addRecord api key).outcome = .ok q) :
    (placement? t.rootName (key, .obj api) = none ∧ (t.addRecord api key).tree = t) ∨
      ∃ p doc, placement? t.rootName (key, .obj api) = some (p, api) ∧
        Document.mergeInto (t.nodeAt p).doc api = .ok doc ∧
        (t.addRecord api key).tree = (t.ensure p false).modify p fun n => { n with doc } := by
  cases hname : recordName? api key with
  | none => exact .inl ⟨by simp [placement?, hname], by simp [addRecord, hname]⟩
  | some name =>
      let p := Path.ofRecord t.rootName name
      let r := Document.mergeFields api ((t.ensure p false).nodeAt p).doc
      have hadd : (t.addRecord api key).tree =
            (t.ensure p false).modify p (fun n => { n with doc := r.value }) ∧
          (t.addRecord api key).outcome =
            match r.fault with | none => .ok p | some fault => .error fault := by
        simp only [addRecord, hname]
        exact ⟨rfl, rfl⟩
      cases hfault : r.fault with
      | some fault => simp [hadd.2, hfault] at h
      | none =>
          refine .inr ⟨p, r.value, by simp [placement?, hname, p], ?_, hadd.1⟩
          simpa [r] using Document.mergeInto_eq_ok hfault

variable {rootName : String} {placed : List (Path × Fields)} {t : Tree}

theorem mentions_concat (placed : List (Path × Fields)) (p : Path) (api : Fields) :
    mentions (placed ++ [(p, api)]) = mentions placed ++ p.steps := by
  simp [mentions]

theorem Mirrors.root_mem (h : Mirrors rootName placed t) : [] ∈ t.paths := by
  rw [h.paths, List.mem_eraseDups]
  exact List.mem_cons_self

/-- Merging a record into the node at its path keeps the correspondence. -/
theorem Mirrors.add (h : Mirrors rootName placed t) {p : Path} {api doc : Fields}
    (hdoc : Document.mergeInto (t.nodeAt p).doc api = .ok doc) :
    Mirrors rootName (placed ++ [(p, api)])
      ((t.ensure p false).modify p fun n => { n with doc }) := by
  have hpaths : (t.ensure p false).paths = ([] :: mentions (placed ++ [(p, api)])).eraseDups := by
    rw [paths_ensure h.paths, mentions_concat, List.cons_append]
  have hp : p ∈ (t.ensure p false).paths := by
    rw [hpaths, List.mem_eraseDups, mentions_concat]
    by_cases hnil : p = []
    · simp [hnil]
    · simp [Path.mem_steps_self hnil]
  constructor
  · exact (rootName_ensure t p false).trans h.root
  · exact (fromEnd_ensure t p false).trans h.fromEnd
  · rw [paths_modify (f := fun n => { n with doc }) fun _ => rfl, hpaths]
  · intro q
    rw [nodeAt_modify (f := fun n => { n with doc }) fun _ => rfl]
    by_cases hq : q = p
    · subst hq
      -- The record comes last among those placed here, and is merged last.
      rw [if_pos ⟨rfl, hp⟩, documentsAt, List.filter_append, List.map_append]
      simpa [documentsAt] using (Document.mergeAll_concat (documentsAt placed q) api).trans
        (by rw [h.docs]; exact hdoc)
    · have hne : p ≠ q := fun e => hq e.symm
      rw [if_neg fun e => hq e.1, doc_nodeAt_ensure, ← h.docs, documentsAt, List.filter_append]
      simp [documentsAt, hne]
  · intro q
    rw [nodeAt_modify (f := fun n => { n with doc }) fun _ => rfl]
    split
    · simp [h.resolution]
    · simp [h.resolution]

/-- What placing a record keeps, adding the records of a description keeps. An unusable record
changes nothing. -/
theorem addRecords_induction {P : List (Path × Fields) → Tree → Prop}
    (hadd : ∀ placed t p api doc, P placed t →
      Document.mergeInto (t.nodeAt p).doc api = .ok doc →
        P (placed ++ [(p, api)]) ((t.ensure p false).modify p fun n => { n with doc }))
    (hroot : t.rootName = rootName) (h : P placed t) {entries : List (String × Json)}
    (hok : (t.addRecords entries).outcome = .ok ()) :
    P (placed ++ placements rootName entries) (t.addRecords entries).tree := by
  induction entries generalizing t placed with
  | nil => simpa [placements, Tree.addRecords] using h
  | cons entry rest ih =>
      obtain ⟨key, v⟩ := entry
      have hskip (hnone : placement? rootName (key, v) = none) :
          placements rootName ((key, v) :: rest) = placements rootName rest := by
        simp [placements, hnone]
      cases v with
      | obj api =>
          rw [Tree.addRecords] at hok ⊢
          cases hone : (t.addRecord api key).outcome with
          | error fault => simp [Progress.andThen_of_error hone] at hok
          | ok q =>
              rw [Progress.andThen_of_ok hone] at hok ⊢
              obtain ⟨hnone, htree⟩ | ⟨p, doc, hplace, hdoc, htree⟩ := addRecord_of_ok hone
              · rw [hroot] at hnone
                rw [htree] at hok ⊢
                rw [hskip hnone]
                exact ih hroot h hok
              · rw [hroot] at hplace
                rw [htree] at hok ⊢
                have hcons : placements rootName ((key, .obj api) :: rest) =
                    [(p, api)] ++ placements rootName rest := by simp [placements, hplace]
                rw [hcons, ← List.append_assoc]
                exact ih ((rootName_ensure t p false).trans hroot) (hadd _ _ _ _ _ h hdoc) hok
      | _ =>
          rw [hskip rfl]
          exact ih hroot h hok

theorem outcome_build (apis : Fields) (rootName : String) :
    (build (.obj apis) rootName).outcome =
      (((rooted rootName (versionOf apis)).addRecords apis).outcome).map
        fun _ => ((rooted rootName (versionOf apis)).addRecords apis).tree := by
  rw [build, Report.outcome_bind]
  cases h : ((rooted rootName (versionOf apis)).addRecords apis).outcome <;>
    simp [Progress.toReport, Report.outcome, h, Except.map, Except.bind, Report.tell]
  all_goals rfl

/-- What holds of a tree that has only a root, and is kept by placing a record, holds of every tree
that is built. -/
theorem build_induction {P : List (Path × Fields) → Tree → Prop}
    (hadd : ∀ placed t p api doc, P placed t →
      Document.mergeInto (t.nodeAt p).doc api = .ok doc →
        P (placed ++ [(p, api)]) ((t.ensure p false).modify p fun n => { n with doc }))
    (hroot : ∀ version, P [] (rooted rootName version)) {apis : Fields}
    (h : (build (.obj apis) rootName).outcome = .ok t) : P (placements rootName apis) t := by
  rw [outcome_build] at h
  cases hok : ((rooted rootName (versionOf apis)).addRecords apis).outcome with
  | error fault => simp [hok, Except.map] at h
  | ok u =>
      have htree : ((rooted rootName (versionOf apis)).addRecords apis).tree = t := by
        simpa [hok, Except.map] using h
      have hadded : P ([] ++ placements rootName apis) _ :=
        addRecords_induction hadd rfl (hroot (versionOf apis)) hok
      rwa [htree, List.nil_append] at hadded

/-- The tree of a description mirrors its usable records. -/
theorem mirrors_build {apis : Fields} (h : (build (.obj apis) rootName).outcome = .ok t) :
    Mirrors rootName (placements rootName apis) t :=
  build_induction (fun _ _ _ _ _ hmirrors hdoc => hmirrors.add hdoc) (mirrors_rooted rootName) h

/-- A tree as a map from paths to documents, the one that placed records give: the nodes are the
root and each prefix of the path of a record, none of them twice; a node's document is the merge of
the records placed at it, in order; the children of a node stand in the order in which the records
first mention them. -/
structure Refines (placed : List (Path × Fields)) (t : Tree) : Prop where
  nodup : t.paths.Nodup
  mem_paths : ∀ p, p ∈ t.paths ↔ p = [] ∨ ∃ r ∈ placed, p ≠ [] ∧ p <+: r.1
  document : ∀ n ∈ t.nodes, Document.mergeAll (documentsAt placed n.path) = .ok n.doc
  children : ∀ n ∈ t.nodes, (t.childrenOf n.path).map Node.path =
    ((mentions placed).filter n.path.isChildOf).eraseDups

/-- Building a tree refines the map from paths to documents. -/
theorem build_refines {apis : Fields} (h : (build (.obj apis) rootName).outcome = .ok t) :
    Refines (placements rootName apis) t := by
  have hm := mirrors_build h
  have hd : t.paths.Nodup := hm.paths ▸ nodup_eraseDups _
  refine ⟨hd, ?_, ?_, ?_⟩
  · intro p
    rw [hm.paths, List.mem_eraseDups, List.mem_cons, mentions, List.mem_flatMap]
    simp only [Path.mem_steps]
  · intro n hn
    rw [hm.docs, nodeAt_path hd hn]
  · intro n hn
    have hroot : n.path.isChildOf [] = false := rfl
    have hmap : (t.childrenOf n.path).map Node.path = t.paths.filter n.path.isChildOf := by
      rw [childrenOf, paths, List.filter_map]
      rfl
    rw [hmap, hm.paths, filter_eraseDups, List.filter_cons, hroot, if_neg Bool.false_ne_true]

/-- A description in which two records share a node, one by its key and one by a name with the
root's name in front, and in which another record comes to a node that was only passed through. -/
def aliasedRecords : Fields :=
  [("__version", .str "1.0"),
    ("A.B", .obj [("summary", .str "first"), ("global", .bool true)]),
    ("second", .obj [("name", .str "Global.A.B"), ("summary", .str "second")]),
    ("root", .obj [("name", .str "Global")]),
    ("unusable", .obj [("name", .int 3)]),
    ("A", .obj [])]

theorem build_refines_aliasedRecords :
    ∃ t, (build (.obj aliasedRecords) "Global").outcome = .ok t ∧
      Refines (placements "Global" aliasedRecords) t := by
  have h : ∃ t, (build (.obj aliasedRecords) "Global").outcome = .ok t := ⟨_, by rfl⟩
  obtain ⟨t, ht⟩ := h
  exact ⟨t, ht, build_refines ht⟩

end Tree

end ApiTypings
