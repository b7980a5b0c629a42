import ApiTypings.Proofs.Document.Named
import ApiTypings.Proofs.Namespace.Refinement

/-!
What the nodes of a built tree hold, and when there is such a tree.

The document of each node is the merge of the records placed there, so that whatever every merge
keeps is true of all documents of the tree. The tree can be built just if the records of each path
can be merged, and a name that cannot be compared is all that can be in the way.
-/

namespace ApiTypings

namespace Document

/-- What each merge of a sequence keeps, all of them keep. -/
theorem mergeAll_induction {P : Fields → Prop} {docs : List Fields} {doc : Fields}
    (hempty : P [])
    (hmerge : ∀ source ∈ docs, ∀ target, P target → P (mergeFields source target).value)
    (h : mergeAll docs = .ok doc) : P doc := by
  induction docs using List.reverseRecOn generalizing doc with
  | nil =>
      obtain rfl := Except.ok.inj h
      exact hempty
  | append_singleton docs last ih =>
      rw [mergeAll_concat] at h
      cases hdocs : mergeAll docs with
      | error fault => simp [hdocs, Except.bind] at h
      | ok target =>
          have htarget := ih (fun source hsource => hmerge source (by simp [hsource])) hdocs
          rw [hdocs, Except.bind, mergeInto] at h
          split at h
          · obtain rfl := Except.ok.inj h
            exact hmerge last (by simp) target htarget
          · simp at h

theorem mergeInto_fault {target source : Fields} {fault : Fault}
    (h : mergeInto target source = .error fault) : fault = .notAName := by
  rw [mergeInto] at h
  split at h
  · simp at h
  next hfault =>
    obtain rfl := Except.error.inj h
    exact (mergeFields_fault source hfault).1

/-- Where all of some documents can be merged, so can the first of them. -/
theorem mergeAll_of_append {docs others : List Fields} {doc : Fields}
    (h : mergeAll (docs ++ others) = .ok doc) : ∃ first, mergeAll docs = .ok first := by
  rw [mergeAll, List.foldlM_append] at h
  cases hdocs : mergeAll docs with
  | error fault =>
      rw [mergeAll] at hdocs
      simp [hdocs, bind, Except.bind] at h
  | ok first => exact ⟨first, rfl⟩

/-- Documents in which names are texts can be merged, one after another. -/
theorem mergeAll_named {docs : List Fields} (h : ∀ doc ∈ docs, (Json.obj doc).NamedByText) :
    ∃ doc, mergeAll docs = .ok doc ∧ (Json.obj doc).NamedByText := by
  induction docs using List.reverseRecOn with
  | nil => exact ⟨[], rfl, Json.namedByText_obj_nil⟩
  | append_singleton docs last ih =>
      obtain ⟨target, htarget, hnamed⟩ := ih fun doc hdoc => h doc (by simp [hdoc])
      obtain ⟨hfault, hvalue⟩ := merge_named (h last (by simp)) hnamed
      refine ⟨_, ?_, hvalue⟩
      rw [mergeAll_concat, htarget, Except.bind, mergeInto_eq_ok hfault]

end Document

namespace Tree

variable {rootName : String} {placed : List (Path × Fields)} {t : Tree}

theorem Mirrors.nodup (h : Mirrors rootName placed t) : t.paths.Nodup :=
  h.paths ▸ nodup_eraseDups _

theorem Mirrors.document (h : Mirrors rootName placed t) {n : Node} (hn : n ∈ t.nodes) :
    Document.mergeAll (documentsAt placed n.path) = .ok n.doc := by
  rw [h.docs, nodeAt_path h.nodup hn]

theorem mem_of_mem_documentsAt {p : Path} {api : Fields} (h : api ∈ documentsAt placed p) :
    (p, api) ∈ placed := by
  obtain ⟨⟨q, doc⟩, hfiltered, rfl⟩ := List.mem_map.1 h
  obtain ⟨hmem, hq⟩ := List.mem_filter.1 hfiltered
  obtain rfl : q = p := by simpa using hq
  exact hmem

/-- A placed record is an entry of the description. -/
theorem mem_of_mem_placements {apis : Fields} {p : Path} {api : Fields}
    (h : (p, api) ∈ placements rootName apis) : ∃ key, (key, .obj api) ∈ apis := by
  obtain ⟨⟨key, v⟩, hmem, hplace⟩ := List.mem_filterMap.1 h
  cases v with
  | obj fields =>
      obtain ⟨name, -, heq⟩ := Option.map_eq_some_iff.1 hplace
      obtain ⟨-, rfl⟩ := Prod.mk.inj heq
      exact ⟨key, hmem⟩
  | _ => simp [placement?] at hplace

/-- What the merge of any record keeps is true of all documents of a built tree. -/
theorem docs_build {P : Fields → Prop} {apis : Fields}
    (hbuild : (build (.obj apis) rootName).outcome = .ok t) (hempty : P [])
    (hmerge : ∀ key api, (key, .obj api) ∈ apis → ∀ target, P target →
      P (Document.mergeFields api target).value) :
    ∀ n ∈ t.nodes, P n.doc := by
  have hm := mirrors_build hbuild
  intro n hn
  refine Document.mergeAll_induction hempty ?_ (hm.document hn)
  intro source hsource
  obtain ⟨key, hentry⟩ := mem_of_mem_placements (mem_of_mem_documentsAt hsource)
  exact hmerge key source hentry

/-! ### When a tree can be built -/

/-- Adding a record ends as its merge into the document at its path does. -/
theorem outcome_addRecord (t : Tree) (api : Fields) (key : String) :
    (t.addRecord api key).outcome = (placement? t.rootName (key, .obj api)).elim (.ok [])
      fun r => (Document.mergeInto (t.nodeAt r.1).doc api).map fun _ => r.1 := by
  cases hname : recordName? api key with
  | none => simp [addRecord, placement?, hname]
  | some name =>
      let p := Path.ofRecord t.rootName name
      have hfault : ((t.ensure p false).absorb p api).2 =
          (Document.mergeFields api (t.nodeAt p).doc).fault := by
        rw [absorb, doc_nodeAt_ensure]
      have hplace : placement? t.rootName (key, .obj api) = some (p, api) := by
        rw [placement?, hname, Option.map_some]
      rw [hplace, Option.elim_some, Document.mergeInto, ← hfault]
      have hp : (if name = t.rootName then [] else Path.ofName t.rootName name) = p := rfl
      simp only [addRecord, hname, hp]
      cases ((t.ensure p false).absorb p api).2 <;> rfl

theorem documentsAt_append (placed others : List (Path × Fields)) (p : Path) :
    documentsAt (placed ++ others) p = documentsAt placed p ++ documentsAt others p := by
  simp [documentsAt]

theorem documentsAt_cons_self (placed : List (Path × Fields)) (p : Path) (api : Fields) :
    documentsAt ((p, api) :: placed) p = api :: documentsAt placed p := by
  simp [documentsAt]

theorem documentsAt_cons_of_ne {p q : Path} (h : q ≠ p) (placed : List (Path × Fields))
    (api : Fields) : documentsAt ((q, api) :: placed) p = documentsAt placed p := by
  simp [documentsAt, h]

/-- The next record can be merged if it can be merged together with all that were placed before. -/
theorem Mirrors.mergeInto_ok (h : Mirrors rootName placed t) {p : Path} {api doc : Fields}
    {later : List (Path × Fields)}
    (hmerge : Document.mergeAll (documentsAt (placed ++ (p, api) :: later) p) = .ok doc) :
    ∃ next, Document.mergeInto (t.nodeAt p).doc api = .ok next := by
  rw [documentsAt_append, documentsAt_cons_self, ← List.singleton_append, ← List.append_assoc]
    at hmerge
  obtain ⟨next, hnext⟩ := Document.mergeAll_of_append hmerge
  rw [Document.mergeAll_concat, h.docs] at hnext
  exact ⟨next, hnext⟩

theorem placements_cons_of_none {entry : String × Json} (h : placement? rootName entry = none)
    (rest : Fields) : placements rootName (entry :: rest) = placements rootName rest := by
  simp [placements, h]

theorem placements_cons_of_some {entry : String × Json} {placement : Path × Fields}
    (h : placement? rootName entry = some placement) (rest : Fields) :
    placements rootName (entry :: rest) = placement :: placements rootName rest := by
  simp [placements, h]

theorem outcome_addRecords {entries : List (String × Json)} (h : Mirrors rootName placed t)
    (hmerge : ∀ p, ∃ doc,
      Document.mergeAll (documentsAt (placed ++ placements rootName entries) p) = .ok doc) :
    (t.addRecords entries).outcome = .ok () := by
  induction entries generalizing t placed with
  | nil => rfl
  | cons entry rest ih =>
      obtain ⟨key, v⟩ := entry
      have hskip (hnone : placement? rootName (key, v) = none) :=
        placements_cons_of_none hnone rest
      cases v with
      | obj api =>
          have hok : ∃ q, (t.addRecord api key).outcome = .ok q := by
            rw [outcome_addRecord, h.root]
            cases hplace : placement? rootName (key, .obj api) with
            | none => exact ⟨_, rfl⟩
            | some placement =>
                obtain ⟨name, -, rfl⟩ := Option.map_eq_some_iff.1 hplace
                -- What can be merged with all that is still to come can be merged now.
                obtain ⟨doc, hdoc⟩ := hmerge (Path.ofRecord rootName name)
                rw [placements_cons_of_some hplace] at hdoc
                obtain ⟨next, hnext⟩ := h.mergeInto_ok hdoc
                exact ⟨Path.ofRecord rootName name, by simp [hnext, Except.map]⟩
          obtain ⟨q, hq⟩ := hok
          rw [addRecords, Progress.andThen_of_ok hq]
          obtain ⟨hnone, htree⟩ | ⟨p, doc, hplace, hdoc, htree⟩ := addRecord_of_ok hq
          · rw [h.root] at hnone
            rw [htree]
            exact ih h (hskip hnone ▸ hmerge)
          · rw [h.root] at hplace
            rw [placements_cons_of_some hplace, List.append_cons] at hmerge
            rw [htree]
            exact ih (h.add hdoc) hmerge
      | _ => exact ih h (hskip rfl ▸ hmerge)

/-- A description is built into a tree if the records of each path can be merged. -/
theorem build_of_mergeAll {apis : Fields}
    (h : ∀ p, ∃ doc, Document.mergeAll (documentsAt (placements rootName apis) p) = .ok doc) :
    ∃ t, (build (.obj apis) rootName).outcome = .ok t := by
  have hok : ((rooted rootName (versionOf apis)).addRecords apis).outcome = .ok () :=
    outcome_addRecords (mirrors_rooted rootName (versionOf apis)) (by simpa using h)
  exact ⟨_, by rw [outcome_build, hok]; rfl⟩

theorem addRecords_fault {entries : List (String × Json)} {fault : Fault}
    (h : (t.addRecords entries).outcome = .error fault) : fault = .notAName := by
  induction entries generalizing t with
  | nil => simp [addRecords] at h
  | cons entry rest ih =>
      obtain ⟨key, v⟩ := entry
      cases v with
      | obj api =>
          rw [addRecords] at h
          cases hadd : (t.addRecord api key).outcome with
          | ok q =>
              rw [Progress.andThen_of_ok hadd] at h
              exact ih h
          | error f =>
              rw [Progress.andThen_of_error hadd] at h
              obtain rfl := Except.error.inj h
              rw [outcome_addRecord] at hadd
              cases hplace : placement? t.rootName (key, .obj api) with
              | none => simp [hplace] at hadd
              | some placement =>
                  rw [hplace, Option.elim_some] at hadd
                  cases hmerge : Document.mergeInto (t.nodeAt placement.1).doc api with
                  | ok doc => simp [hmerge, Except.map] at hadd
                  | error f' =>
                      obtain rfl : f' = f := by simpa [hmerge, Except.map] using hadd
                      exact Document.mergeInto_fault hmerge
      | _ => exact ih h

/-- No other fault ends the building of a tree. -/
theorem build_fault {apis : Fields} {fault : Fault}
    (h : (build (.obj apis) rootName).outcome = .error fault) : fault = .notAName := by
  rw [outcome_build] at h
  cases hadd : ((rooted rootName (versionOf apis)).addRecords apis).outcome with
  | ok _ => simp [hadd, Except.map] at h
  | error f =>
      obtain rfl : f = fault := by simpa [hadd, Except.map] using h
      exact addRecords_fault hadd

end Tree

end ApiTypings
