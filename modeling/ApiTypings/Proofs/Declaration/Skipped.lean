import ApiTypings.Declaration.File
import ApiTypings.Proofs.Document.Depth
import ApiTypings.Proofs.Document.Skipped
import ApiTypings.Proofs.Namespace.Content

/-!
The skipped field leaves no trace.

All that a description contributes to its tree goes through a merge, but for the names of the
records and the version, and these are not stored under the skipped field. So two descriptions that
differ only in what is stored there have the same tree, and from there on nothing can tell them
apart. The field itself does not get into the tree either.
-/

namespace ApiTypings

open Document

theorem Fields.get?_map (f : Json → Json) (fields : Fields) (key : String) :
    Fields.get? (fields.map fun entry => (entry.1, f entry.2)) key = (fields.get? key).map f := by
  induction fields with
  | nil => rfl
  | cons entry rest ih =>
      rw [List.map_cons, get?_cons, ih, get?_cons]
      split <;> rfl

namespace Document

/-- A document without the skipped field. -/
def LacksSkipped (fields : Fields) : Prop := skippedField ∉ fields.keys

theorem keptBy_lacksSkipped : KeptBy (fun _ => True) LacksSkipped where
  empty := List.not_mem_nil
  set {_ target key _ w} _ _ hkey htarget _ := by
    rw [LacksSkipped, Fields.keys_set]
    split
    · exact htarget
    · intro h
      rcases List.mem_append.1 h with h | h
      · exact htarget h
      · exact hkey (List.mem_singleton.1 h).symm

end Document

namespace Tree

/-- A description with whatever its records store under the skipped field hidden. -/
def hideRecords (apis : Fields) : Fields := apis.map fun entry => (entry.1, hide entry.2)

theorem recordName?_hideFields (api : Fields) (key : String) :
    recordName? (hideFields api) key = recordName? api key := by
  have hget : Fields.get (hideFields api) "name" = hide (Fields.get api "name") := by
    rw [Fields.get, Fields.get, get?_hideFields (by decide)]
    cases Fields.get? api "name" <;> rfl
  rw [recordName?, recordName?, hget, truthy_hide, text?_hide]

theorem addRecord_hideFields (t : Tree) (api : Fields) (key : String) :
    t.addRecord (hideFields api) key = t.addRecord api key := by
  rw [addRecord, addRecord, recordName?_hideFields]
  simp only [absorb, mergeFields_hideFields]

theorem addRecords_hideRecords (t : Tree) (apis : Fields) :
    t.addRecords (hideRecords apis) = t.addRecords apis := by
  induction apis generalizing t with
  | nil => rfl
  | cons entry rest ih =>
      obtain ⟨key, v⟩ := entry
      cases v with
      | obj api =>
          have hcons : hideRecords ((key, .obj api) :: rest) =
              (key, .obj (hideFields api)) :: hideRecords rest := rfl
          rw [hcons, addRecords, addRecords, addRecord_hideFields]
          simp only [ih]
      | _ => exact ih t

theorem versionOf_hideRecords (apis : Fields) : versionOf (hideRecords apis) = versionOf apis := by
  rw [versionOf, versionOf, Fields.get, Fields.get, hideRecords, Fields.get?_map]
  cases Fields.get? apis versionKey with
  | none => rfl
  | some v => rw [Option.map_some, Option.getD_some, Option.getD_some, text?_hide]

/-- The tree of a description, and all that is reported on the way to it, is the same with the
values hidden. -/
theorem build_hideRecords (apis : Fields) (rootName : String) :
    build (.obj (hideRecords apis)) rootName = build (.obj apis) rootName := by
  rw [build, build, versionOf_hideRecords, addRecords_hideRecords]

theorem lacksSkipped_build {apis : Fields} {rootName : String} {t : Tree}
    (h : (build (.obj apis) rootName).outcome = .ok t) :
    ∀ n ∈ t.nodes, (Json.obj n.doc).Throughout LacksSkipped := by
  have hempty : (Json.obj []).Throughout LacksSkipped := ⟨List.not_mem_nil, trivial⟩
  refine docs_build (P := fun doc => (Json.obj doc).Throughout LacksSkipped) h hempty ?_
  intro key api _ target htarget
  exact throughout_merge keptBy_lacksSkipped (Json.throughout_true _) htarget

end Tree

namespace Declaration

/-- Of two descriptions that differ only in what their records store under the skipped field, at
whatever depth, neither the text nor the fault nor the journal tells which it was made from; and no
object in a document of a built tree has the field. -/
theorem generate_blind_to_skipped {apis apis' : Fields}
    (h : Tree.hideRecords apis = Tree.hideRecords apis') :
    (∀ options, generate options (.obj apis) = generate options (.obj apis')) ∧
      ∀ rootName t, (Tree.build (.obj apis) rootName).outcome = .ok t →
        ∀ n ∈ t.nodes, (Json.obj n.doc).Throughout LacksSkipped := by
  refine ⟨?_, fun rootName t hbuild => Tree.lacksSkipped_build hbuild⟩
  intro options
  rw [generate, generate, ← Tree.build_hideRecords apis, h, Tree.build_hideRecords]

/-- A description that stores a value under the skipped field in a record, in an object in it, in a
member, and in an object in a list of lists. -/
def leakyRecords (v : Json) : Fields :=
  [("A", .obj [("name", .str "A"), ("global", v),
      ("since", .obj [("android", .str "1.0"), ("global", v)]),
      ("methods", .arr [.obj [("name", .str "f"), ("global", v)]]),
      ("examples", .arr [.arr [.obj [("global", v), ("text", .str "f()")]]])])]

theorem generate_blind_to_skipped_leakyRecords :
    Tree.hideRecords (leakyRecords (.int 1)) =
        Tree.hideRecords (leakyRecords (.obj [("name", .arr [])])) ∧
      generate .standard (.obj (leakyRecords (.int 1))) =
        generate .standard (.obj (leakyRecords (.obj [("name", .arr [])]))) ∧
      ∃ t, (Tree.build (.obj (leakyRecords (.int 1))) "Global").outcome = .ok t ∧
        ∀ n ∈ t.nodes, (Json.obj n.doc).Throughout LacksSkipped := by
  have hhidden : Tree.hideRecords (leakyRecords (.int 1)) =
      Tree.hideRecords (leakyRecords (.obj [("name", .arr [])])) := by rfl
  obtain ⟨hblind, hlacks⟩ := generate_blind_to_skipped hhidden
  have hbuild : ∃ t, (Tree.build (.obj (leakyRecords (.int 1))) "Global").outcome = .ok t :=
    ⟨_, by rfl⟩
  obtain ⟨t, ht⟩ := hbuild
  exact ⟨hhidden, hblind .standard, t, ht, hlacks "Global" t ht⟩

end Declaration

end ApiTypings
