import ApiTypings.Proofs.Declaration.Completion
import ApiTypings.Proofs.Declaration.Stages
import ApiTypings.Proofs.Exclusion.Failure
import ApiTypings.Proofs.Namespace.Below
import ApiTypings.Proofs.Namespace.Content

/-!
What comes of a description.

A description may hold almost anything, and there is still a text for it. Two things are asked: that
names are texts, and that the exclusions of a record, where it has any, are an object. Then the
documents of the tree have both as well, whatever else was merged in which order, all of them can be
read, and only types that extend each other in a circle keep the declarations from being made.
-/

namespace ApiTypings.Declaration

open Exclusion

/-- A document whose exclusions, if it has any, are an object. -/
def ListsExclusions (doc : Fields) : Prop :=
  ∀ v, ("excludes", v) ∈ doc → v = .null ∨ ∃ fields, v = .obj fields

/-- A description in which all names are texts and all exclusions objects. -/
structure WellNamed (apis : Fields) : Prop where
  names : ∀ key api, (key, .obj api) ∈ apis → (Json.obj api).NamedByText
  excludes : ∀ key api, (key, .obj api) ∈ apis → ListsExclusions api

variable {apis : Fields} {t : Tree} {rootName : String}

/-! ### The documents -/

theorem listsExclusions_merge {source target : Fields} (hsource : ListsExclusions source)
    (htarget : ListsExclusions target) :
    ListsExclusions (Document.mergeFields source target).value := by
  refine Document.mergeFields_keeps (C := ListsExclusions) ?_ htarget
  rintro ⟨key, v⟩ hentry fields w hfields hform x hx
  rcases Fields.mem_set hx with hx | ⟨hkey, rfl⟩
  · exact hfields x hx
  · -- What is stored under the key is of the sort of what the record holds there.
    dsimp only at hkey hform
    subst hkey
    rcases hsource v hentry with rfl | ⟨old, rfl⟩
    · exact .inl hform
    · exact .inr hform

theorem readable_of_listsExclusions {doc : Fields} (h : ListsExclusions doc) (fallback : String) :
    ∃ record, TypeRecord.ofFields doc fallback = .ok record := by
  have hown : ∃ own, OwnExclusions.ofJson (doc.get "excludes") = .ok own := by
    rw [Fields.get]
    cases hv : doc.get? "excludes" with
    | none => exact ⟨_, rfl⟩
    | some v =>
        rcases h v (Fields.mem_of_get? hv) with rfl | ⟨fields, rfl⟩
        · exact ⟨_, rfl⟩
        · cases fields with
          | nil => exact ⟨_, rfl⟩
          | cons field rest => exact ⟨_, rfl⟩
  obtain ⟨own, hown⟩ := hown
  exact ⟨_, by rw [TypeRecord.ofFields, hown]; rfl⟩

/-- The documents of the tree are of the sort of the records. -/
theorem docs_of_wellNamed (h : WellNamed apis)
    (hbuild : (Tree.build (.obj apis) rootName).outcome = .ok t) (p : Path) :
    (Json.obj (t.nodeAt p).doc).NamedByText ∧ ListsExclusions (t.nodeAt p).doc := by
  by_cases hp : p ∈ t.paths
  · refine Tree.docs_build (P := fun doc => (Json.obj doc).NamedByText ∧ ListsExclusions doc)
      hbuild ⟨Json.namedByText_obj_nil, by simp [ListsExclusions]⟩ ?_ _ (Tree.nodeAt_mem_nodes hp)
    intro key api hentry target htarget
    exact ⟨(Document.merge_named (h.names key api hentry) htarget.1).2,
      listsExclusions_merge (h.excludes key api hentry) htarget.2⟩
  · rw [Tree.nodeAt_of_not_mem hp]
    exact ⟨Json.namedByText_obj_nil, by simp [ListsExclusions, Node.blank]⟩

theorem build_of_wellNamed (h : WellNamed apis) (rootName : String) :
    ∃ t, (Tree.build (.obj apis) rootName).outcome = .ok t := by
  refine Tree.build_of_mergeAll fun p => ?_
  have hnamed (doc : Fields) (hdoc : doc ∈ Tree.documentsAt (Tree.placements rootName apis) p) :
      (Json.obj doc).NamedByText := by
    obtain ⟨key, hentry⟩ := Tree.mem_of_mem_placements (Tree.mem_of_mem_documentsAt hdoc)
    exact h.names key doc hentry
  obtain ⟨doc, hdoc, -⟩ := Document.mergeAll_named hnamed
  exact ⟨doc, hdoc⟩

/-! ### The nodes -/

theorem not_hasIncomparable {record : TypeRecord} (h : record.NamedByText) :
    ¬record.HasIncomparable := by
  rintro (⟨m, hm, hkey⟩ | ⟨p, hp, hkey⟩)
  · obtain ⟨s, hs⟩ := (h.methods m hm).name
    simp [hs, Json.nameKey?] at hkey
  · obtain ⟨s, hs⟩ := h.properties p hp
    simp [hs, Json.nameKey?] at hkey

/-- A node that is settled is ready to be declared if its document is named by text. -/
theorem ready_of_memo {n : Node} {r : Resolution} (ht : t.Memo) (hn : n ∈ t.nodes)
    (hr : n.resolution = some r) (hdoc : (Json.obj n.doc).NamedByText) : Ready n := by
  have hnode := Tree.nodeAt_path ht.proper.nodup hn
  obtain ⟨whole, hwhole, hrecord⟩ := (ht.settled n.path r (by rw [hnode, hr])).prescribes.record
  rw [Tree.wholeRecord, hnode] at hwhole
  refine ⟨r, hr, ?_⟩
  rw [hrecord]
  exact (TypeRecord.ofFields_namedByText hdoc hwhole).without _

theorem completes_treeBody (options : Options) (hmemo : t.Memo)
    (hok : (resolveAll t).outcome = .ok ())
    (hdocs : ∀ p, (Json.obj (t.nodeAt p).doc).NamedByText) :
    (treeBody options (resolveAll t).tree).Completes := by
  have hsound := sound_resolveAll hmemo
  have hnodup := hsound.memo.proper.nodup
  refine completes_bodyText fun n hn => ?_
  have hnode := Tree.mem_nodes_of_mem_rootBranch hsound.memo.proper.root hn
  have hdoc := (hsound.grows.sameDocuments hsound.memo.proper).doc n.path
  obtain ⟨r, hr⟩ := resolution_of_resolveAll hmemo hok (Tree.mem_paths.2 ⟨n, hnode, rfl⟩)
  rw [Tree.nodeAt_path hnodup hnode] at hdoc hr
  exact ready_of_memo hsound.memo hnode hr (hdoc ▸ hdocs n.path)

/-- Where no types extend each other in a circle there is a text. -/
theorem text_of_resolveAll {options : Options} (h : WellNamed apis)
    (hbuild : (Tree.build (.obj apis) options.rootName).outcome = .ok t)
    (hok : (resolveAll t).outcome = .ok ()) :
    ∃ text, (generate options (.obj apis)).outcome = .ok text := by
  have hdocs := docs_of_wellNamed h hbuild
  obtain ⟨body, hbody⟩ :=
    completes_treeBody options (Tree.memo_build hbuild) hok fun p => (hdocs p).1
  exact ⟨_, by rw [outcome_generate_of_resolveAll hbuild hok, hbody, Except.map]⟩

/-- Whatever else a description holds, and whatever the options are, if names are texts and
exclusions are objects, then there is a text for it or some types in it extend each other. -/
theorem generate_text_or_cycle (h : WellNamed apis) (options : Options) :
    (∃ text, (generate options (.obj apis)).outcome = .ok text) ∨
      ∃ chain, (generate options (.obj apis)).outcome = .error (.cycle chain) := by
  obtain ⟨t, hbuild⟩ := build_of_wellNamed h options.rootName
  have hmemo := Tree.memo_build hbuild
  have hdocs := docs_of_wellNamed h hbuild
  have hreads (p : Path) : ∃ whole, t.wholeRecord p = .ok whole :=
    readable_of_listsExclusions (hdocs p).2 _
  have hcomparable : ¬t.HasIncomparable := by
    rintro ⟨n, hn, whole, hwhole, hincomparable⟩
    have hnamed := TypeRecord.ofFields_namedByText (hdocs n.path).1 hwhole
    exact not_hasIncomparable hnamed hincomparable
  cases hok : (resolveAll t).outcome with
  | error fault =>
      obtain ⟨chain, rfl⟩ := resolveAll_fault_of_readable hreads hcomparable hmemo hok
      exact .inr ⟨chain, by rw [outcome_generate_of_build hbuild, hok, Except.bind]⟩
  | ok _ =>
      obtain ⟨body, hbody⟩ := completes_treeBody options hmemo hok fun p => (hdocs p).1
      exact .inl ⟨_, by rw [outcome_generate_of_resolveAll hbuild hok, hbody, Except.map]⟩

/-- A description in which little is as it should be: an extended type that is a number, parameters
that are a text, and entries of lists that are no members. -/
def untidyRecords : Fields :=
  [("A", .obj [("name", .str "A"), ("extends", .int 3), ("excludes", .null),
      ("methods", .obj [("0", .obj [("name", .str "f"), ("parameters", .str "x"),
        ("returns", .arr [.null])])]),
      ("events", .arr [.bool true, .obj [("name", .str "e"),
        ("properties", .arr [.int 1, .obj [("name", .str "p")]])]])]),
    ("B", .str "nothing")]

theorem generate_text_or_cycle_untidyRecords :
    WellNamed untidyRecords ∧
      ((∃ text, (generate .standard (.obj untidyRecords)).outcome = .ok text) ∨
        ∃ chain, (generate .standard (.obj untidyRecords)).outcome = .error (.cycle chain)) := by
  have h : WellNamed untidyRecords := by
    constructor
    · simp [untidyRecords, Json.NamedByText, Json.Throughout, Json.ThroughoutItems,
        Json.ThroughoutValues, Fields.NamedByText]
    · simp [untidyRecords, ListsExclusions]
  exact ⟨h, generate_text_or_cycle h .standard⟩

end ApiTypings.Declaration
