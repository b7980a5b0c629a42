import ApiTypings.Proofs.Declaration.Alike
import ApiTypings.Proofs.Document.Sharing

/-!
Types that are described in two places.

A record may be shared out to two, the second of them under a new key anywhere behind the first, as
long as no other record of the same path comes in between. The second mentions no path that the
first has not mentioned, and at its own path it is merged right behind the first. So the tree is the
same, but for the order of fields, and the declarations are the same altogether.
-/

namespace ApiTypings

theorem eraseDups_append_mentioned {xs ys : List Path} (h : ys ⊆ xs) (zs : List Path) :
    (xs ++ (ys ++ zs)).eraseDups = (xs ++ zs).eraseDups := by
  have hnone : ys.removeAll xs = [] := List.filter_eq_nil_iff.2 fun p hp => by simp [h hp]
  have hsame : zs.removeAll (xs ++ ys) = zs.removeAll xs := by
    refine List.filter_congr fun p _ => ?_
    have hmem : p ∈ xs ++ ys ↔ p ∈ xs := by simpa using fun hp => h hp
    simp [hmem]
  rw [← List.append_assoc, List.eraseDups_append, List.eraseDups_append, hnone, hsame,
    List.eraseDups_append]
  simp

namespace Tree

variable {rootName name key key' : String} {doc first second before mid after : Fields}

theorem placements_append (xs ys : Fields) :
    placements rootName (xs ++ ys) = placements rootName xs ++ placements rootName ys :=
  List.filterMap_append

/-- A record that states its name lies at the path of that name, whatever it is filed under. -/
theorem placements_named (hne : name ≠ "") (hname : Fields.get? doc "name" = some (.str name))
    (rest : Fields) :
    placements rootName ((key, .obj doc) :: rest) =
      (Path.ofRecord rootName name, doc) :: placements rootName rest := by
  have hown : recordName? doc key = some name :=
    recordName?_eq_some.2 ⟨hne, .inl (by rw [Fields.get, hname, Option.getD_some])⟩
  exact placements_cons_of_some (by rw [placement?, hown, Option.map_some]) rest

/-- A record states no version, be it filed under a new key or replaced under its own. -/
theorem versionOf_shared
    (hfresh : key' ∉ Fields.keys (before ++ (key, .obj doc) :: (mid ++ after))) :
    versionOf (before ++ (key, .obj first) :: (mid ++ (key', .obj second) :: after)) =
      versionOf (before ++ (key, .obj doc) :: (mid ++ after)) := by
  by_cases hkey' : key' = versionKey
  · -- The key is in use nowhere else, so there is no version on the other side either.
    subst hkey'
    have hnone := Fields.get?_of_not_mem_keys hfresh
    simp only [Fields.get?_append, Fields.get?_cons, Option.or_eq_none_iff] at hnone
    obtain ⟨hbefore, hrest⟩ := hnone
    have hkey : key ≠ versionKey := fun h => by simp [h] at hrest
    rw [if_neg hkey, Option.or_eq_none_iff] at hrest
    simp [versionOf, Fields.get, Fields.get?_append, hbefore, hkey, hrest, Json.text?]
  · simp only [versionOf, Fields.get, Fields.get?_append, Fields.get?_cons, if_neg hkey']
    cases Fields.get? before versionKey with
    | some v => rfl
    | none =>
        split
        · rfl
        · rfl

theorem documentsAt_eq_nil {placed : List (Path × Fields)} {p : Path}
    (h : ∀ r ∈ placed, r.1 ≠ p) : documentsAt placed p = [] := by
  rw [documentsAt, List.map_eq_nil_iff, List.filter_eq_nil_iff]
  simpa using h

/-- Sharing a record out changes neither what is mentioned nor what comes to lie at any path. -/
theorem sameContent_of_sharedOut (h : Document.SharedOut name doc first second)
    (hfresh : key' ∉ Fields.keys (before ++ (key, .obj doc) :: (mid ++ after)))
    (hmid : ∀ r ∈ placements rootName mid, r.1 ≠ Path.ofRecord rootName name) :
    SameContent rootName
      (before ++ (key, .obj first) :: (mid ++ (key', .obj second) :: after))
      (before ++ (key, .obj doc) :: (mid ++ after)) := by
  have hwhole : placements rootName (before ++ (key, .obj doc) :: (mid ++ after)) =
      placements rootName before ++ (Path.ofRecord rootName name, doc) ::
        (placements rootName mid ++ placements rootName after) := by
    rw [placements_append, placements_named h.name_ne h.name_doc, placements_append]
  have hshared :
      placements rootName (before ++ (key, .obj first) :: (mid ++ (key', .obj second) :: after)) =
        placements rootName before ++ (Path.ofRecord rootName name, first) ::
          (placements rootName mid ++ (Path.ofRecord rootName name, second) ::
            placements rootName after) := by
    rw [placements_append, placements_named h.name_ne h.name_first, placements_append,
      placements_named h.name_ne h.name_second]
  refine ⟨versionOf_shared hfresh, ?_, fun p => ?_⟩
  · rw [hwhole, hshared]
    -- The second record mentions the steps to its path behind all that was mentioned in between.
    have hknown : (Path.ofRecord rootName name).steps ⊆
        [] :: (mentions (placements rootName before) ++
          ((Path.ofRecord rootName name).steps ++ mentions (placements rootName mid))) :=
      fun q hq => by simp [hq]
    have hmentioned := eraseDups_append_mentioned hknown (mentions (placements rootName after))
    simpa [mentions] using hmentioned
  · rw [hwhole, hshared]
    by_cases hp : Path.ofRecord rootName name = p
    · subst hp
      simp only [documentsAt_append, documentsAt_cons_self, documentsAt_eq_nil hmid,
        List.nil_append]
      exact h.mergeAll_eq _ _
    · simp only [documentsAt_append, documentsAt_cons_of_ne hp]

end Tree

namespace Declaration

/-- Descriptions of the same content have the same outcome. Where one cannot be built, neither can
the other, and for the same reason. -/
theorem outcome_generate_of_sameContent {options : Options} {apis apis' : Fields}
    (h : Tree.SameContent options.rootName apis apis') :
    (generate options (.obj apis)).outcome = (generate options (.obj apis')).outcome := by
  cases hbuild : (Tree.build (.obj apis) options.rootName).outcome with
  | ok t =>
      obtain ⟨u, hbuild'⟩ := h.build hbuild
      exact outcome_generate_alike hbuild hbuild' (h.alike hbuild hbuild')
  | error fault =>
      cases hbuild' : (Tree.build (.obj apis') options.rootName).outcome with
      | ok u =>
          obtain ⟨t, ht⟩ := h.symm.build hbuild'
          simp [hbuild] at ht
      | error fault' =>
          obtain rfl := Tree.build_fault hbuild
          obtain rfl := Tree.build_fault hbuild'
          rw [outcome_generate, outcome_generate, hbuild, hbuild']

/-- A record whose fields are shared out to two of its name, the second of them behind the first
under a key that is not in use, with no record for the same path in between, leaves the
declarations, or the fault that there is instead of them, as they are. -/
theorem generate_sharedOut {options : Options} {name key key' : String}
    {doc first second before mid after : Fields} (h : Document.SharedOut name doc first second)
    (hfresh : key' ∉ Fields.keys (before ++ (key, .obj doc) :: (mid ++ after)))
    (hmid : ∀ r ∈ Tree.placements options.rootName mid,
      r.1 ≠ Path.ofRecord options.rootName name) :
    (generate options
        (.obj (before ++ (key, .obj first) :: (mid ++ (key', .obj second) :: after)))).outcome =
      (generate options (.obj (before ++ (key, .obj doc) :: (mid ++ after)))).outcome :=
  outcome_generate_of_sameContent (Tree.sameContent_of_sharedOut h hfresh hmid)

/-- A record with two methods, and two records with one of them each. -/
def unsharedRecord : Fields :=
  [("name", .str "A"), ("summary", .str "One type."),
    ("methods", .arr [.obj [("name", .str "f")], .obj [("name", .str "g")]])]

def firstRecord : Fields :=
  [("name", .str "A"), ("methods", .arr [.obj [("name", .str "f")]])]

def secondRecord : Fields :=
  [("methods", .arr [.obj [("name", .str "g")]]), ("name", .str "A"),
    ("summary", .str "One type.")]

/-- A record beside them. -/
def otherRecord : Fields := [("name", .str "B"), ("extends", .str "A")]

theorem generate_sharedOut_unsharedRecord :
    Document.SharedOut "A" unsharedRecord firstRecord secondRecord ∧
      (generate .standard (.obj ([] ++ ("A", .obj firstRecord) ::
          ([("B", .obj otherRecord)] ++ ("A-more", .obj secondRecord) :: [])))).outcome =
        (generate .standard (.obj ([] ++ ("A", .obj unsharedRecord) ::
          ([("B", .obj otherRecord)] ++ [])))).outcome := by
  have h : Document.SharedOut "A" unsharedRecord firstRecord secondRecord := by
    refine ⟨?_, by decide, by decide, by decide, rfl, rfl, rfl, fun key hname => ?_⟩
    · simp [unsharedRecord, Json.WellKeyed, Json.Throughout, Json.ThroughoutItems,
        Json.ThroughoutValues, Fields.keys]
    · by_cases hsummary : "summary" = key
      · subst hsummary
        exact .second _
      · by_cases hmethods : "methods" = key
        · subst hmethods
          have hcut : Document.Portions
              (some (.arr ([.obj [("name", .str "f")]] ++ [.obj [("name", .str "g")]])))
              (some (.arr [.obj [("name", .str "f")]])) (some (.arr [.obj [("name", .str "g")]])) :=
            .cut (by simp) (by simp) rfl
          exact hcut
        · simp only [unsharedRecord, firstRecord, secondRecord, Fields.get?_cons, Fields.get?_nil,
            if_neg (Ne.symm hname), if_neg hsummary, if_neg hmethods]
          exact .first none
  have hmid : ∀ r ∈ Tree.placements Options.standard.rootName [("B", .obj otherRecord)],
      r.1 ≠ Path.ofRecord Options.standard.rootName "A" := by decide +kernel
  exact ⟨h, generate_sharedOut h (by decide) hmid⟩

end Declaration

end ApiTypings
