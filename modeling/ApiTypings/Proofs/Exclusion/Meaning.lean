import ApiTypings.Proofs.Exclusion.Effect
import ApiTypings.Proofs.Exclusion.Operation
import ApiTypings.Proofs.Exclusion.Recursion
import ApiTypings.Proofs.Namespace.Content

/-!
What a name means.

Names of types are read in two places. The name of a record says where the record is kept, and the
name that a record extends says from where it inherits. For all names but one these are the same
node, so what is inherited under a name is what the documents exclude that were recorded under it.
The exception is the name of the root alone. Its records are kept at the root, but a type that
extends it inherits from a child of the root that has this name.
-/

namespace ApiTypings

open Exclusion

/-! ### Where a resolution looks -/

namespace Exclusion

variable {t u : Tree} {p q : Path} {record : TypeRecord} {inherited e : Exclusions}
  {met : List String} {x : Progress Exclusions}

theorem passed_of_settleOne (h : (settleOne t p record inherited).outcome = .ok e) :
    e = (ownOf record).union inherited := by
  unfold settleOne at h
  dsimp only at h
  split at h
  · simp at h
  · exact (Except.ok.inj h).symm

theorem inherits_of_settleOne (hp : p ∈ t.paths)
    (h : (settleOne t p record inherited).outcome = .ok e) :
    Inherits (settleOne t p record inherited).tree (some p) e := by
  obtain rfl := passed_of_settleOne h
  unfold settleOne at h ⊢
  dsimp only at h ⊢
  split at h
  · simp at h
  next left _ =>
    refine ⟨⟨left, (ownOf record).union inherited⟩, ?_, rfl⟩
    rw [Tree.nodeAt_modify
      (f := fun n => { n with resolution := some ⟨left, (ownOf record).union inherited⟩ })
      fun _ => rfl, if_pos ⟨rfl, hp⟩]

/-- A node that is resolved is settled with what it passes on. -/
theorem Descent.inherits (h : Descent t p met x) (hp : p ∈ t.paths) (hok : x.outcome = .ok e) :
    Inherits x.tree (some p) e := by
  cases h with
  | settled hr => exact ⟨_, hr, Except.ok.inj hok⟩
  | top => exact inherits_of_settleOne hp hok
  | further hr hwhole hmet htarget hother hup =>
      obtain ⟨passed, -, hone, htree⟩ := Progress.andThen_eq_ok hok
      rw [htree]
      have hmem := hup.kept (kept_mem_paths p) ((kept_mem_paths p).ensure _ hp)
      exact inherits_of_settleOne hmem hone
  | _ => simp at hok

/-- A node that is not settled passes on what its document excludes, before anything else. -/
theorem Descent.own (h : Descent t p met x) (hr : (t.nodeAt p).resolution = none)
    (hok : x.outcome = .ok e) :
    ∃ whole above, t.wholeRecord p = .ok whole ∧ e = (ownOf whole).union above := by
  cases h with
  | settled hr' => simp [hr] at hr'
  | top _ hwhole => exact ⟨_, _, hwhole, passed_of_settleOne hok⟩
  | further _ hwhole _ _ _ hup =>
      obtain ⟨passed, -, hone, -⟩ := Progress.andThen_eq_ok hok
      exact ⟨_, passed, hwhole, passed_of_settleOne hone⟩
  | _ => simp at hok

end Exclusion

namespace Tree

variable {t : Tree} {name : String} {p q : Path}

/-! ### Names and nodes -/

/-- The node that a name means: records of the name go there and nowhere else, even if something
cuts the merge short, and a type that extends the name inherits what that node excludes, above all
what its document says if it is not settled yet. -/
structure Means (t : Tree) (name : String) (q : Path) : Prop where
  received : ∀ api key, recordName? api key = some name →
    ∀ p, (t.addRecord api key).outcome = .ok p → p = q
  merged : ∀ api key, recordName? api key = some name → ∀ p,
    ((t.addRecord api key).tree.nodeAt p).doc =
      if p = q then (Document.mergeFields api (t.nodeAt q).doc).value else (t.nodeAt p).doc
  reached : ∀ p whole, (t.nodeAt p).resolution = none → t.wholeRecord p = .ok whole →
    whole.extends? = some name → q ∈ (resolve t p).tree.paths
  inherited : ∀ p whole, (t.nodeAt p).resolution = none → t.wholeRecord p = .ok whole →
    whole.extends? = some name → ∀ e, (resolve t p).outcome = .ok e →
      ∃ passed, Inherits (resolve t p).tree (some q) passed ∧ e = (ownOf whole).union passed ∧
        ((t.nodeAt q).resolution = none → ∃ own above,
          OwnExclusions.ofJson ((t.nodeAt q).doc.get "excludes") = .ok own ∧
            passed = Exclusions.union ⟨own.methods, own.properties⟩ above)

/-- The path of a record's name is made sure of, and the record is merged there, as far as that
goes. -/
theorem tree_addRecord_of_name {api : Fields} {key : String}
    (hname : recordName? api key = some name) (hq : Path.ofRecord t.rootName name = q) :
    (t.addRecord api key).tree = (t.ensure q false).modify q fun n =>
      { n with doc := (Document.mergeFields api (t.nodeAt q).doc).value } := by
  rw [← hq, ← doc_nodeAt_ensure false t _ (Path.ofRecord t.rootName name)]
  simp only [addRecord, hname]
  rfl

theorem outcome_addRecord_of_name {api : Fields} {key : String}
    (hname : recordName? api key = some name) (hq : Path.ofRecord t.rootName name = q)
    (hok : (t.addRecord api key).outcome = .ok p) : p = q := by
  rw [outcome_addRecord, placement?, hname, Option.map_some, Option.elim_some, hq] at hok
  cases hmerge : Document.mergeInto (t.nodeAt q).doc api with
  | error fault => simp [hmerge, Except.map] at hok
  | ok doc => simpa [hmerge, Except.map] using hok.symm

theorem doc_addRecord_of_name (ht : t.Proper) {api : Fields} {key : String}
    (hname : recordName? api key = some name) (hq : Path.ofRecord t.rootName name = q) (p : Path) :
    ((t.addRecord api key).tree.nodeAt p).doc =
      if p = q then (Document.mergeFields api (t.nodeAt q).doc).value else (t.nodeAt p).doc := by
  have hnode := nodeAt_modify (t := t.ensure q false) (p := q)
    (f := fun n => { n with doc := (Document.mergeFields api (t.nodeAt q).doc).value })
    (fun _ => rfl) p
  rw [tree_addRecord_of_name hname hq, hnode]
  by_cases hp : p = q
  · rw [if_pos ⟨hp, ht.mem_paths_ensure_self⟩, if_pos hp]
  · rw [if_neg fun h => hp h.1, if_neg hp, doc_nodeAt_ensure]

/-- Resolving a node makes sure of the node that it extends, and what comes of it is what that node
passes on, added to what the node excludes itself. -/
theorem inherited_of_resolve (ht : t.Proper) {whole : TypeRecord}
    (hr : (t.nodeAt p).resolution = none) (hwhole : t.wholeRecord p = .ok whole)
    (htarget : whole.extends? = some name) (hq : Path.ofName t.rootName name = q) :
    q ∈ (resolve t p).tree.paths ∧
    ∀ e, (resolve t p).outcome = .ok e →
      ∃ passed, Inherits (resolve t p).tree (some q) passed ∧ e = (ownOf whole).union passed ∧
        ((t.nodeAt q).resolution = none → ∃ own above,
          OwnExclusions.ofJson ((t.nodeAt q).doc.get "excludes") = .ok own ∧
            passed = Exclusions.union ⟨own.methods, own.properties⟩ above) := by
  have hdescent : Descent t p [] (resolve t p) := descent_climb t p []
  have hmem : q ∈ (t.ensure q true).paths := ht.mem_paths_ensure_self
  subst hq
  generalize resolve t p = x at hdescent ⊢
  cases hdescent with
  | settled hr' => simp [hr] at hr'
  | unreadable _ hwhole' => simp [hwhole] at hwhole'
  | repeated _ _ hmet => simp at hmet
  | top _ hwhole' _ htop =>
      obtain rfl := Except.ok.inj (hwhole.symm.trans hwhole')
      simp [htarget] at htop
  | itself _ hwhole' _ htarget' =>
      obtain rfl := Except.ok.inj (hwhole.symm.trans hwhole')
      obtain rfl := Option.some.inj (htarget.symm.trans htarget')
      exact ⟨hmem, by simp⟩
  | further _ hwhole' _ htarget' hother hup =>
      obtain rfl := Except.ok.inj (hwhole.symm.trans hwhole')
      obtain rfl := Option.some.inj (htarget.symm.trans htarget')
      constructor
      · exact kept_andThen (P := fun u => _ ∈ u.paths) (hup.kept (kept_mem_paths _) hmem)
          fun _ _ hu => kept_settleOne (kept_mem_paths _) hu _ _ _
      · intro e hok
        obtain ⟨passed, hpassed, hone, htree⟩ := Progress.andThen_eq_ok hok
        obtain ⟨r, hsettled, hexcluded⟩ := hup.inherits hmem hpassed
        refine ⟨passed, ?_, passed_of_settleOne hone, ?_⟩
        · rw [htree]
          exact ⟨r, by rw [resolution_settleOne hother, hsettled], hexcluded⟩
        · intro hnone
          obtain ⟨source, above, hsource, hown⟩ :=
            hup.own (by rw [resolution_nodeAt_ensure, hnone]) hpassed
          have hexcludes := excludes_of_whole hsource
          rw [doc_nodeAt_ensure] at hexcludes
          exact ⟨source.excludes, above, hexcludes, hown⟩

/-- For every name but that of the root, where it is recorded is from where it is inherited. -/
theorem means_of_proper (ht : t.Proper) (hname : name ≠ t.rootName) :
    t.Means name (Path.ofName t.rootName name) where
  received _ _ h _ hok := outcome_addRecord_of_name h (if_neg hname) hok
  merged _ _ h := doc_addRecord_of_name ht h (if_neg hname)
  reached _ _ hr hwhole htarget := (inherited_of_resolve ht hr hwhole htarget rfl).1
  inherited _ _ hr hwhole htarget := (inherited_of_resolve ht hr hwhole htarget rfl).2

/-! ### What was recorded -/

end Tree

/-- A document with others merged into it, one after another, each as far as it goes. -/
def Document.absorbAll (target : Fields) (docs : List Fields) : Fields :=
  docs.foldl (fun target doc => (mergeFields doc target).value) target

/-- The record that an operation adds, with the path of its name. -/
def Operation.placed? (rootName : String) : Operation → Option (Path × Fields)
  | .record api key => Tree.placement? rootName (key, .obj api)
  | _ => none

namespace Tree

variable {t : Tree}

/-- The records that operations add, whether or not they succeed, each with the path of its name. -/
def placedBy (rootName : String) (operations : List Operation) : List (Path × Fields) :=
  operations.filterMap (Operation.placed? rootName)

theorem proper_of_created (h : Path.Created t.paths) (hend : t.fromEnd = []) : t.Proper where
  nodup := h.nodup
  root := h.root_mem
  closed _ hp _ hq := h.closed hp (Path.mem_steps.1 hq).2
  fromEnd := hend

/-- An operation changes the document that it adds a record to, and no other. -/
theorem operate_docs (h : Path.Created t.paths) (hend : t.fromEnd = []) (operation : Operation) :
    (t.operate operation).rootName = t.rootName ∧ (t.operate operation).fromEnd = [] ∧
      ∀ p, ((t.operate operation).nodeAt p).doc = Document.absorbAll (t.nodeAt p).doc
        (documentsAt (operation.placed? t.rootName).toList p) := by
  cases operation with
  | create parent name synthetic =>
      rw [operate, ensureAt_natCast]
      cases t.paths[parent]? with
      | none => exact ⟨rfl, hend, fun _ => rfl⟩
      | some base =>
          have hdoc (p : Path) : ((t.ensureChild base name synthetic).nodeAt p).doc =
              (t.nodeAt p).doc := by
            obtain ⟨s, hnode⟩ := nodeAt_ensureChild synthetic t base name p
            rw [hnode]
          exact ⟨rootName_ensureChild t base name synthetic,
            (fromEnd_ensureChild t base name synthetic).trans hend, hdoc⟩
  | lookUp name synthetic =>
      exact ⟨rootName_ensure t _ synthetic, (fromEnd_ensure t _ synthetic).trans hend,
        fun p => doc_nodeAt_ensure synthetic t _ p⟩
  | record api key =>
      rw [operate, Operation.placed?, placement?]
      cases hname : recordName? api key with
      | none =>
          have htree : (t.addRecord api key).tree = t := by simp [addRecord, hname]
          rw [htree]
          exact ⟨rfl, hend, fun _ => rfl⟩
      | some name =>
          obtain ⟨q, hq⟩ : ∃ q, Path.ofRecord t.rootName name = q := ⟨_, rfl⟩
          have hdoc := doc_addRecord_of_name (proper_of_created h hend) hname hq
          refine ⟨?_, ?_, fun p => ?_⟩
          · rw [tree_addRecord_of_name hname hq]
            exact rootName_ensure t q false
          · rw [tree_addRecord_of_name hname hq]
            exact (fromEnd_ensure t q false).trans hend
          · rw [hdoc, Option.map_some, hq, Option.toList_some]
            by_cases hp : p = q
            · rw [if_pos hp, hp, documentsAt_cons_self]
              rfl
            · rw [if_neg hp, documentsAt_cons_of_ne (Ne.symm hp)]
              rfl
  | resolve request =>
      obtain ⟨hroot, hfrom, hdocs⟩ := kept_perform (kept_docs t) ⟨rfl, rfl, fun _ => rfl⟩ request
      exact ⟨hroot, hfrom.trans hend, hdocs⟩

theorem operateAll_docs (h : Path.Created t.paths) (hend : t.fromEnd = [])
    (operations : List Operation) :
    (t.operateAll operations).rootName = t.rootName ∧ (t.operateAll operations).fromEnd = [] ∧
      ∀ p, ((t.operateAll operations).nodeAt p).doc = Document.absorbAll (t.nodeAt p).doc
        (documentsAt (placedBy t.rootName operations) p) := by
  induction operations generalizing t with
  | nil => exact ⟨rfl, hend, fun _ => rfl⟩
  | cons operation rest ih =>
      obtain ⟨hroot, hfrom, hdocs⟩ := operate_docs h hend operation
      obtain ⟨hroot', hfrom', hdocs'⟩ := ih (expands_operate h operation).created hfrom
      refine ⟨hroot'.trans hroot, hfrom', fun p => (hdocs' p).trans ?_⟩
      have hplaced : placedBy t.rootName (operation :: rest) =
          (operation.placed? t.rootName).toList ++ placedBy t.rootName rest := by
        rw [placedBy, List.filterMap_cons]
        cases operation.placed? t.rootName <;> rfl
      rw [hdocs, hroot, hplaced, documentsAt_append]
      exact (List.foldl_append ..).symm

/-- Whatever was done to a tree before, a name other than that of the root means one node, at which
records of the name arrive and from which a type inherits that extends the name; and the document
there is what the records make that were added under names of the same path. -/
theorem means_operateAll (rootName version : String) (operations : List Operation) {name : String}
    (hname : name ≠ rootName) :
    ((rooted rootName version).operateAll operations).Means name (Path.ofName rootName name) ∧
      (((rooted rootName version).operateAll operations).nodeAt (Path.ofName rootName name)).doc =
        Document.absorbAll []
          (documentsAt (placedBy rootName operations) (Path.ofName rootName name)) := by
  have h : Path.Created (rooted rootName version).paths := .root
  obtain ⟨hroot, hfrom, hdocs⟩ := operateAll_docs h rfl operations
  have hproper := proper_of_created (expands_operateAll h operations).created hfrom
  constructor
  · have hother : name ≠ ((rooted rootName version).operateAll operations).rootName := by
      rwa [hroot]
    have hmeans := means_of_proper hproper hother
    rwa [hroot] at hmeans
  · rw [hdocs]
    have hdoc : ((rooted rootName version).nodeAt (Path.ofName rootName name)).doc = [] := by
      by_cases hnil : Path.ofName rootName name = [] <;> simp [rooted, nodeAt, Node.blank, hnil]
    rw [hdoc]
    rfl

/-- A record, one that extends it with the root's name in front, and a request to resolve the latter
between further ones. -/
def prefixedOperations : List Operation :=
  [.record [("excludes", .obj [("methods", .arr [.str "f"])])] "B",
    .record [("extends", .str "Global.B")] "A",
    .resolve (.node 2),
    .record [("name", .str "Global.B"), ("excludes", .obj [("methods", .arr [.str "g"])])] "second"]

theorem means_operateAll_prefixedOperations :
    "Global.B" ≠ "Global" ∧
      ((rooted "Global" "").operateAll prefixedOperations).Means "Global.B" ["B"] ∧
      (((rooted "Global" "").operateAll prefixedOperations).nodeAt ["B"]).doc =
        Document.absorbAll [] [[("excludes", .obj [("methods", .arr [.str "f"])])],
          [("name", .str "Global.B"), ("excludes", .obj [("methods", .arr [.str "g"])])]] := by
  have hname : "Global.B" ≠ "Global" := by decide
  have hpath : Path.ofName "Global" "Global.B" = ["B"] := by rfl
  have hmeans := means_operateAll "Global" "" prefixedOperations hname
  rw [hpath] at hmeans
  exact ⟨hname, hmeans.1, hmeans.2.trans (by rfl)⟩

/-- A record of the root and a type that extends the root. -/
def rootOperations : List Operation :=
  [.record [("name", .str "Global"), ("excludes", .obj [("methods", .arr [.str "f"])])] "Global",
    .record [("name", .str "A"), ("extends", .str "Global")] "A"]

/-- The type is resolved, but the root, where records of its name arrive, is not. -/
theorem rootName_means_rootOperations :
    ¬∃ q, ((rooted "Global" "").operateAll rootOperations).Means "Global" q := by
  rintro ⟨q, h⟩
  have hq : [] = q := h.received [("name", .str "Global")] "Global" rfl [] (by cbv)
  subst hq
  have hresolved := show resolve ((rooted "Global" "").operateAll rootOperations) ["A"] = _ by cbv
  obtain ⟨passed, ⟨r, hr, -⟩, -⟩ := h.inherited ["A"] _ (by cbv) (by cbv) rfl _ (by rw [hresolved])
  rw [hresolved] at hr
  simp [nodeAt] at hr

end Tree

end ApiTypings
