import ApiTypings.Externs.File
import ApiTypings.Proofs.Document.Lookup
import ApiTypings.Proofs.Text.Sorted

/-!
Externs follow the names of a description.

A file of externs goes through the names that the description has, in the order of their code
points, and looks each one up. So it does not matter in which order the names were written, and what
stands between the fixed lines are the blocks of the records, one for each, in the order of their
names. A value that is no record is passed over. A record that cannot be written ends the file, and
of several such records the one with the least name decides on the fault.
-/

namespace ApiTypings.Externs

variable {apis other : Fields} {rootName : String}

/-! ### The records of a description -/

/-- The records of a description, each with the name it is filed under. -/
def records (apis : Fields) : List (String × Fields) :=
  apis.filterMap fun entry => entry.2.fields?.map fun cls => (entry.1, cls)

/-- The record filed under a name, with the name. -/
def recordAt? (apis : Fields) (key : String) : Option (String × Fields) :=
  (apis.get key).fields?.map fun cls => (key, cls)

theorem fst_of_recordAt? {key : String} {entry : String × Fields}
    (h : recordAt? apis key = some entry) : entry.1 = key := by
  obtain ⟨cls, -, rfl⟩ := Option.map_eq_some_iff.1 h
  rfl

theorem filterMap_recordAt?_keys (hkeys : apis.keys.Nodup) :
    apis.keys.filterMap (recordAt? apis) = records apis := by
  rw [Fields.keys, List.filterMap_map]
  refine List.filterMap_congr fun entry hentry => ?_
  rw [Function.comp_apply, recordAt?, Fields.get, Fields.get?_of_mem hkeys hentry, Option.getD_some]

/-- The records in the order of their names. -/
def sortedRecords (apis : Fields) : List (String × Fields) :=
  (Text.sortDistinct apis.keys).filterMap (recordAt? apis)

theorem sortedRecords_perm (hkeys : apis.keys.Nodup) :
    (sortedRecords apis).Perm (records apis) := by
  rw [← filterMap_recordAt?_keys hkeys]
  exact (Text.sortDistinct_perm hkeys).filterMap _

theorem pairwise_sortedRecords (apis : Fields) :
    (sortedRecords apis).Pairwise fun a b => a.1 < b.1 := by
  refine (Text.pairwise_sortDistinct apis.keys).filterMap _ fun key key' hlt a ha b hb => ?_
  rwa [fst_of_recordAt? ha, fst_of_recordAt? hb]

/-! ### Their lines -/

/-- The blocks of records, in the given order and up to the first that cannot be written. -/
def blocksOf (entries : List (String × Fields)) (rootName : String) :
    Except Fault (List (List String)) :=
  entries.mapM fun entry => classLines entry.2 entry.1 rootName

theorem flatten_bind_cons (lines : List String) (blocks : Except Fault (List (List String))) :
    (blocks >>= fun rest => pure (lines :: rest)).map List.flatten =
      (blocks.map List.flatten).map (lines ++ ·) := by
  cases blocks <;> rfl

/-- A name under which no record is filed adds no lines and cannot fail. -/
theorem flatten_mapM_entryLines (apis : Fields) (rootName : String) (keys : List String) :
    (keys.mapM (entryLines apis rootName)).map List.flatten =
      (blocksOf (keys.filterMap (recordAt? apis)) rootName).map List.flatten := by
  induction keys with
  | nil => rfl
  | cons key rest ih =>
      rw [List.mapM_cons]
      cases hget : apis.get key with
      | obj cls =>
        have hrecord : recordAt? apis key = some (key, cls) := by rw [recordAt?, hget]; rfl
        have hlines : entryLines apis rootName key = classLines cls key rootName := by
          rw [entryLines, hget]
        rw [List.filterMap_cons_some hrecord, blocksOf, List.mapM_cons, hlines]
        cases classLines cls key rootName with
        | error fault => rfl
        | ok lines =>
          have hrest := congrArg (Except.map (lines ++ ·)) ih
          rwa [← flatten_bind_cons, ← flatten_bind_cons] at hrest
      | _ =>
        have hrecord : recordAt? apis key = none := by rw [recordAt?, hget]; rfl
        have hlines : entryLines apis rootName key = .ok [] := by rw [entryLines, hget]
        rw [List.filterMap_cons_none hrecord, hlines, ← ih]
        cases rest.mapM (entryLines apis rootName) <;> rfl

theorem recordLines_eq (apis : Fields) (rootName : String) :
    recordLines apis rootName = (blocksOf (sortedRecords apis) rootName).map List.flatten :=
  flatten_mapM_entryLines apis rootName _

theorem recordLines_perm (hkeys : apis.keys.Nodup) (h : other.Perm apis) (rootName : String) :
    recordLines other rootName = recordLines apis rootName := by
  have hsorted : Text.sortDistinct other.keys = Text.sortDistinct apis.keys :=
    Text.sortDistinct_congr fun name => (h.map Prod.fst).mem_iff
  have hentries : entryLines other rootName = entryLines apis rootName := by
    funext key
    rw [entryLines, entryLines, Fields.get_congr (Fields.get?_perm hkeys h)]
  rw [recordLines, recordLines, hsorted, hentries]

/-! ### Files -/

theorem outcome_generate (apis : Json) (rootName : String) :
    (generate apis rootName).outcome =
      (bodyLines apis rootName).map fun lines =>
        Text.join "\n" (headerLines ++ lines ++ [footer]) := by
  simp only [generate, Report.outcome_bind, Report.outcome_tell, Report.outcome_ofExcept]
  cases bodyLines apis rootName <;> rfl

/-- A description gives the same externs or the same fault in whatever order it is written, and the
externs are the blocks of its records in the order of their names between the fixed lines. -/
theorem generate_of_perm (hkeys : apis.keys.Nodup) (h : other.Perm apis) (rootName : String) :
    generate (.obj other) rootName = generate (.obj apis) rootName ∧
      ∃ entries, entries.Perm (records apis) ∧ (entries.Pairwise fun a b => a.1 < b.1) ∧
        (generate (.obj apis) rootName).outcome =
          (blocksOf entries rootName).map fun blocks =>
            Text.join "\n" (headerLines ++ blocks.flatten ++ [footer]) := by
  constructor
  · have hbody : bodyLines (.obj other) rootName = bodyLines (.obj apis) rootName :=
      recordLines_perm hkeys h rootName
    rw [generate, generate, hbody]
  · refine ⟨sortedRecords apis, sortedRecords_perm hkeys, pairwise_sortedRecords apis, ?_⟩
    rw [outcome_generate, bodyLines, recordLines_eq]
    cases blocksOf (sortedRecords apis) rootName <;> rfl

/-- Two records and a version, with the names out of order. -/
def unorderedRecords : Fields :=
  [("B", .obj [("name", .str "B")]), ("__version", .str "9.3"), ("A", .obj [("name", .str "A")])]

theorem generate_of_perm_unorderedRecords :
    unorderedRecords.keys.Nodup ∧ unorderedRecords.reverse.Perm unorderedRecords ∧
      generate (.obj unorderedRecords.reverse) "Global" =
        generate (.obj unorderedRecords) "Global" ∧
      ∃ entries, entries.Perm (records unorderedRecords) ∧
        (entries.Pairwise fun a b => a.1 < b.1) ∧
        (generate (.obj unorderedRecords) "Global").outcome =
          (blocksOf entries "Global").map fun blocks =>
            Text.join "\n" (headerLines ++ blocks.flatten ++ [footer]) :=
  have hkeys : unorderedRecords.keys.Nodup := by decide
  ⟨hkeys, List.reverse_perm _, generate_of_perm hkeys (List.reverse_perm _) "Global"⟩

end ApiTypings.Externs
