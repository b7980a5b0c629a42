import ApiTypings.Proofs.Exclusion.Meaning
import ApiTypings.Proofs.Text.Pieces

/-!
Names read upwards.

A dotted name leads down from the root, and missing nodes are created on the way. The name of a node
is gathered on the way up, from parent to parent. `Slots.Ascent` is that way up, which has to come
to an end; in a tree that grew node by node there is exactly one from each node, and it gathers the
segments of the node's path. Where nodes are asked for by dotted names alone, no segment has a dot
inside, so that the segments can be told apart in the joined name, and looking names up and reading
them are inverse to each other. The root's name makes the only difference: it is dropped in front of
other segments.
-/

namespace ApiTypings

/-! ### Going up -/

namespace Slots

/-- The names of the nodes from below the root down to a position, gathered by going up along the
parents. -/
inductive Ascent (slots : List Slot) : Nat → List String → Prop
  | top {i : Nat} {s : Slot} (hs : slots[i]? = some s) (hparent : s.parent = none) :
      Ascent slots i []
  | up {i j : Nat} {s : Slot} {names : List String} (hs : slots[i]? = some s)
      (hparent : s.parent = some j) (above : Ascent slots j names) :
      Ascent slots i (names ++ [s.name])

variable {rootName : String} {ps : List Path} {slots : List Slot} {i : Nat} {names : List String}

theorem Follow.path_of_ascent (h : Follow rootName ps slots) (hascent : Ascent slots i names) :
    ps[i]? = some names := by
  have hpath {i : Nat} {s : Slot} (hs : slots[i]? = some s) : ∃ p, ps[i]? = some p := by
    have hlt := (List.getElem?_eq_some_iff.1 hs).1
    exact ⟨_, List.getElem?_eq_getElem (h.length ▸ hlt)⟩
  induction hascent with
  | top hs hparent =>
      obtain ⟨p, hp⟩ := hpath hs
      rw [hp, (h.parent_eq_none hp hs).1 hparent]
  | @up i j s names hs hparent _ ih =>
      obtain ⟨p, hp⟩ := hpath hs
      rcases h.above i p s hp hs with ⟨-, hnone, -⟩ | ⟨k, q, hk, hq, rfl⟩
      · simp [hparent] at hnone
      · obtain rfl := Option.some.inj (hk.symm.trans hparent)
        rw [hp, Option.some.inj (hq.symm.trans ih)]

/-- Going up from a node comes to an end, since a parent stands before its children, and gathers the
path of the node. -/
theorem Follow.ascent_iff (h : Follow rootName ps slots) (hslots : InStep slots) :
    Ascent slots i names ↔ ps[i]? = some names := by
  refine ⟨h.path_of_ascent, ?_⟩
  induction i using Nat.strong_induction_on generalizing names with
  | _ i ih =>
      intro hi
      obtain ⟨s, hs⟩ := h.getElem? hi
      rcases h.above i names s hi hs with ⟨rfl, hnone, -⟩ | ⟨j, q, hj, hq, rfl⟩
      · exact .top hs hnone
      · exact .up hs hj (ih j (hslots.parent_lt hs hj) hq)

end Slots

/-! ### The root's name in front -/

/-- A dotted name without the root's name in front of other segments. -/
def stripRoot (rootName name : String) : String :=
  if isGlobalName name rootName ∧ '.' ∈ name.toList then
    String.ofList (name.toList.drop (rootName.length + 1))
  else name

namespace Path

variable {rootName name : String} {p : Path}

/-- A dotted name leads along the pieces of what is left without the root's name. -/
theorem ofName_eq_pieces (rootName name : String) :
    ofName rootName name = Text.pieces '.' (stripRoot rootName name) := by
  by_cases hdot : '.' ∈ name.toList
  · obtain ⟨front, back, hname, hfront⟩ := List.eq_append_cons_of_mem hdot
    have hwhole : name = String.ofList front ++ "." ++ String.ofList back := by
      apply String.toList_injective
      simp [hname]
    have hpieces : Text.pieces '.' name =
        String.ofList front :: Text.pieces '.' (String.ofList back) := by
      rw [hwhole, Text.pieces_append rfl, Text.pieces_of_not_mem (by simpa using hfront),
        List.singleton_append]
    have hfirst : name.toList.takeWhile (· != '.') = front := by
      have hothers : ∀ c ∈ front, (c != '.') = true := fun c hc =>
        bne_iff_ne.2 fun e => hfront (e ▸ hc)
      rw [hname, List.takeWhile_append_of_pos hothers]
      simp
    have hglobal : isGlobalName name rootName = true ↔ String.ofList front = rootName := by
      rw [isGlobalName, hfirst, beq_iff_eq, ← String.toList_inj, String.toList_ofList]
    have hpath : ofName rootName name = if String.ofList front = rootName then
        Text.pieces '.' (String.ofList back) else Text.pieces '.' name := by
      obtain ⟨second, rest, hback⟩ :=
        List.exists_cons_of_ne_nil (Text.pieces_ne_nil '.' (String.ofList back))
      rw [ofName, hpieces, hback]
    rw [hpath, stripRoot]
    by_cases hroot : String.ofList front = rootName
    · have hlength : rootName.length = front.length := by rw [← hroot, String.length_ofList]
      rw [if_pos hroot, if_pos ⟨hglobal.2 hroot, hdot⟩, hname, hlength,
        List.drop_length_add_append]
      rfl
    · rw [if_neg hroot, if_neg fun h => hroot (hglobal.1 h.1)]
  · rw [stripRoot, if_neg fun h => hdot h.2, ofName, Text.pieces_of_not_mem hdot]

theorem join_ofName (rootName name : String) :
    Text.join "." (ofName rootName name) = stripRoot rootName name := by
  rw [ofName_eq_pieces, Text.join_pieces rfl]

/-- The joined name of a path leads back to it, if its segments can be told apart and the root's
name is not in front. -/
theorem ofName_join (hne : p ≠ []) (hdots : ∀ s ∈ p, '.' ∉ s.toList)
    (hroot : p.head? ≠ some rootName) : ofName rootName (Text.join "." p) = p := by
  rw [ofName, Text.pieces_join rfl hne hdots]
  split
  next first second rest => exact if_neg fun hfirst => hroot (by rw [← hfirst, List.head?_cons])
  · rfl

end Path

/-! ### Trees that are asked by name -/

/-- An operation that leads to a node by a dotted name. -/
inductive Operation.ByName : Operation → Prop
  | lookUp (name : String) (synthetic : Bool) : ByName (.lookUp name synthetic)
  | record (api : Fields) (key : String) : ByName (.record api key)

namespace Tree

variable {t u : Tree} {p q : Path} {i : Nat}

/-- A tree that grew node by node and whose segments can be told apart in dotted names. -/
structure Dotted (t : Tree) : Prop where
  created : Path.Created t.paths
  fromEnd : t.fromEnd = []
  segments : ∀ p ∈ t.paths, ∀ s ∈ p, '.' ∉ s.toList

theorem Dotted.proper (h : t.Dotted) : t.Proper := proper_of_created h.created h.fromEnd

theorem Dotted.ensure (h : t.Dotted) (name : String) (synthetic : Bool) :
    (t.ensure (Path.ofName t.rootName name) synthetic).Dotted where
  created := (expands_ensure h.created _ synthetic).created
  fromEnd := (fromEnd_ensure t _ synthetic).trans h.fromEnd
  segments p hp s hs := by
    rcases h.proper.mem_paths_ensure.1 hp with hold | hstep
    · exact h.segments p hold s hs
    · have hmem := (Path.mem_steps.1 hstep).2.subset hs
      exact Text.not_mem_of_mem_pieces (Path.ofName_eq_pieces t.rootName name ▸ hmem)

theorem Dotted.modify (h : t.Dotted) (p : Path) {f : Node → Node}
    (hf : ∀ n, (f n).path = n.path) : (t.modify p f).Dotted := by
  have hpaths : (t.modify p f).paths = t.paths := paths_modify hf
  exact ⟨hpaths ▸ h.created, h.fromEnd, hpaths ▸ h.segments⟩

theorem Dotted.operate (h : t.Dotted) {operation : Operation} (hname : operation.ByName) :
    (t.operate operation).Dotted := by
  cases hname with
  | lookUp name synthetic => exact h.ensure name synthetic
  | record api key =>
      rw [Tree.operate]
      cases hname : recordName? api key with
      | none =>
          have htree : (t.addRecord api key).tree = t := by simp [addRecord, hname]
          rwa [htree]
      | some name =>
          rw [tree_addRecord_of_name hname rfl, Path.ofRecord]
          split
          · exact h.modify [] fun _ => rfl
          · exact (h.ensure name false).modify _ fun _ => rfl

theorem Dotted.operateAll (h : t.Dotted) {operations : List Operation}
    (hnames : ∀ operation ∈ operations, operation.ByName) : (t.operateAll operations).Dotted := by
  induction operations generalizing t with
  | nil => exact h
  | cons operation rest ih =>
      obtain ⟨hname, hrest⟩ := List.forall_mem_cons.1 hnames
      exact ih (h.operate hname) hrest

theorem dotted_rooted (rootName version : String) : (rooted rootName version).Dotted where
  created := .root
  fromEnd := rfl
  segments p hp s hs := by
    obtain rfl := List.mem_singleton.1 hp
    exact absurd hs List.not_mem_nil

/-- Looking up a dotted name gives the tree in which there is a node for it, and the position of
that node. -/
def lookUp (t : Tree) (name : String) (synthetic : Bool) : Tree × Option Nat :=
  let u := t.operate (.lookUp name synthetic)
  (u, u.indexOf? (Path.ofName t.rootName name))

/-- Looking up a name whose node is there leads to that node and adds none. -/
theorem Dotted.lookUp_of_mem (h : t.Dotted) {name : String}
    (hi : t.paths[i]? = some (Path.ofName t.rootName name)) (synthetic : Bool) :
    ∃ u, t.lookUp name synthetic = (u, some i) ∧ u.size = t.size := by
  have hpaths : (t.ensure (Path.ofName t.rootName name) synthetic).paths = t.paths := by
    have hsteps : ∀ q ∈ (Path.ofName t.rootName name).steps, q ∈ t.paths :=
      h.proper.closed _ (List.mem_of_getElem? hi)
    have hnone : (Path.ofName t.rootName name).steps.removeAll t.paths = [] := by
      simpa [List.removeAll] using hsteps
    rw [h.proper.paths_ensure, List.eraseDups_append, hnone,
      eraseDups_of_nodup h.created.nodup, List.eraseDups_nil, List.append_nil]
  refine ⟨t.ensure (Path.ofName t.rootName name) synthetic, ?_, ?_⟩
  · rw [lookUp, Tree.operate, indexOf?_of_created (h.ensure name synthetic).created (hpaths ▸ hi)]
  · simpa [paths, size] using congrArg List.length hpaths

/-- What looking up a name leads to is spelled by the name without the root's and is found again. -/
theorem Dotted.lookUp_spelled (h : t.Dotted) {name : String}
    (hname : stripRoot t.rootName name ≠ "") (synthetic : Bool) :
    ∃ u i names, t.lookUp name synthetic = (u, some i) ∧ Slots.Ascent u.slots i names ∧
      Text.join "." names = stripRoot t.rootName name ∧
      u.fullName names = stripRoot t.rootName name ∧
      ∀ again, ∃ v, u.lookUp name again = (v, some i) ∧ v.size = u.size := by
  have hu := h.ensure name synthetic
  have hmem := h.proper.mem_paths_ensure_self (p := Path.ofName t.rootName name) (s := synthetic)
  obtain ⟨i, hi⟩ := List.mem_iff_getElem?.1 hmem
  obtain ⟨hslots, hfollow⟩ := inStep_slots hu.created
  have hjoin := Path.join_ofName t.rootName name
  refine ⟨_, i, Path.ofName t.rootName name, ?_, (hfollow.ascent_iff hslots).2 hi, hjoin, ?_, ?_⟩
  · rw [lookUp, Tree.operate, indexOf?_of_created hu.created hi]
  · rw [fullName_of_fromEnd hu.fromEnd, Path.fullName, hjoin, if_neg hname]
  · exact hu.lookUp_of_mem (by rwa [rootName_ensure])

/-- In a tree whose nodes were asked for by dotted names alone, looking up a name and reading the
name of a node are inverse to each other. A name leads to the node that it spells without the root's
name in front, and to the same node when it is looked up again. The way up from each node ends, in
one way only, and the name gathered on it leads back to the node, which adds none, unless the name
is empty or starts with the root's. -/
theorem lookUp_inverse_fullName (rootName version : String) {operations : List Operation}
    (hnames : ∀ operation ∈ operations, operation.ByName) :
    let t := (rooted rootName version).operateAll operations
    (∀ name synthetic, stripRoot rootName name ≠ "" →
      ∃ u i names, t.lookUp name synthetic = (u, some i) ∧ Slots.Ascent u.slots i names ∧
        Text.join "." names = stripRoot rootName name ∧
        u.fullName names = stripRoot rootName name ∧
        ∀ again, ∃ v, u.lookUp name again = (v, some i) ∧ v.size = u.size) ∧
    ∀ i n, t.nodes[i]? = some n → (∀ names, Slots.Ascent t.slots i names ↔ names = n.path) ∧
      (n.path ≠ [] → n.path.head? ≠ some rootName → Text.join "." n.path ≠ "" →
        ∀ synthetic, ∃ u, t.lookUp (t.fullName n.path) synthetic = (u, some i) ∧
          u.size = t.size) := by
  intro t
  have h : t.Dotted := (dotted_rooted rootName version).operateAll hnames
  have hroot : t.rootName = rootName :=
    (operateAll_docs (t := rooted rootName version) .root rfl operations).1
  constructor
  · intro name synthetic hname
    rw [← hroot] at hname ⊢
    exact h.lookUp_spelled hname synthetic
  · intro i n hn
    have hi : t.paths[i]? = some n.path := by rw [paths, List.getElem?_map, hn, Option.map_some]
    obtain ⟨hslots, hfollow⟩ := inStep_slots h.created
    refine ⟨fun names => ?_, fun hne hhead hfull synthetic => ?_⟩
    · rw [hfollow.ascent_iff hslots, hi, Option.some.injEq, eq_comm]
    · have hspelled : t.fullName n.path = Text.join "." n.path := by
        rw [fullName_of_fromEnd h.fromEnd, Path.fullName, if_neg hfull]
      have hback : Path.ofName t.rootName (Text.join "." n.path) = n.path :=
        Path.ofName_join hne (h.segments _ (List.mem_of_getElem? hi)) (hroot ▸ hhead)
      rw [hspelled]
      exact h.lookUp_of_mem (by rwa [hback]) synthetic

/-- Names with an empty segment and with the root's name in front, and a record between them. -/
def namedOperations : List Operation :=
  [.lookUp "Global.UI..View" true, .record [("name", .str "UI.View")] "first",
    .lookUp "Global.Global.A" false]

theorem lookUp_inverse_fullName_namedOperations :
    let t := (rooted "Global" "").operateAll namedOperations
    (∀ operation ∈ namedOperations, operation.ByName) ∧
      stripRoot "Global" "Global.UI..View" = "UI..View" ∧
      (∃ u i names, t.lookUp "Global.UI..View" false = (u, some i) ∧
        Slots.Ascent u.slots i names ∧ Text.join "." names = "UI..View" ∧
        u.fullName names = "UI..View" ∧
        ∀ again, ∃ v, u.lookUp "Global.UI..View" again = (v, some i) ∧ v.size = u.size) ∧
      (∀ names, Slots.Ascent t.slots 3 names ↔ names = ["UI", "", "View"]) ∧
      ∃ u, t.lookUp "UI..View" true = (u, some 3) ∧ u.size = 7 := by
  intro t
  have hnames : ∀ operation ∈ namedOperations, operation.ByName := by
    simp [namedOperations, Operation.ByName.lookUp, Operation.ByName.record]
  have hstrip : stripRoot "Global" "Global.UI..View" = "UI..View" := by decide +kernel
  obtain ⟨hlookUp, hfullName⟩ := lookUp_inverse_fullName "Global" "" hnames
  obtain ⟨hascent, hback⟩ := hfullName 3 (.blank ["UI", "", "View"] true) (by rfl)
  refine ⟨hnames, hstrip, ?_, hascent, ?_⟩
  · have hfound := hlookUp "Global.UI..View" false (by rw [hstrip]; decide)
    rwa [hstrip] at hfound
  · exact hback (by decide) (by decide) (by decide) true

/-- Below a node that has the root's name itself, the root's name is dropped from what was the name
of the node, and another node is found. -/
example : let t := (rooted "Global" "").operateAll namedOperations
    (t.nodes[6]?.map Node.path, t.fullName ["Global", "A"], (t.lookUp "Global.A" false).2) =
      (some ["Global", "A"], "Global.A", some 7) := by
  rfl

end Tree

end ApiTypings
