import ApiTypings.Api.Reading
import ApiTypings.Namespace.Build

/-!
Climbing the types that a node extends.

Exclusions are inherited, so a node can be settled only after the node it extends. Starting at a
node, the climb follows the extended names upwards, making sure of a node for each, until it meets a
node that is settled already or extends nothing. It returns the records met on the way, the topmost
first. A record name that occurs twice on the way is a cycle.

The climb ends. A step that adds nodes reaches the path of an extended name that was not reached
before, and there are only so many of those, because the nodes that are added extend nothing. A step
that adds no node adds the record name of a node that extends something to the names met, and there
are only so many of those as well.
-/

namespace ApiTypings

/-- The record name of a node. -/
def Tree.recordName (t : Tree) (n : Node) : String := TypeRecord.nameOf n.doc (t.fullName n.path)

/-- Whether a node extends another one under a record name not met so far. -/
def Tree.isUnmet (t : Tree) (met : List String) (n : Node) : Bool :=
  (TypeRecord.extendsOf? n.doc).isSome && !met.contains (t.recordName n)

/-- Whether a node extends a name whose path the tree does not reach. -/
def Tree.isOpen (t : Tree) (n : Node) : Bool :=
  (TypeRecord.extendsOf? n.doc).any fun target => !t.reaches (Path.ofName t.rootName target)

namespace Exclusion

/-- The records between a node and the exclusions it starts from: `pending` lists the paths with
their records, the topmost first, and `inherited` is what the topmost inherits. -/
structure Lineage where
  pending : List (Path × TypeRecord)
  inherited : Exclusions

/-- A lineage with one more record below it. -/
def Lineage.push (l : Lineage) (p : Path) (record : TypeRecord) : Lineage :=
  ⟨l.pending ++ [(p, record)], l.inherited⟩

/-- The number of extending nodes whose record name has not been met. -/
def unmet (t : Tree) (met : List String) : Nat := t.nodes.countP (t.isUnmet met)

/-- The number of nodes that extend what is not reached. -/
def unreached (t : Tree) : Nat := t.nodes.countP t.isOpen

/-- A count goes down if its condition becomes stronger and fails for one more element. -/
theorem countP_lt {α : Type} {p q : α → Bool} {xs : List α} (hle : ∀ x, q x = true → p x = true)
    {x : α} (hx : x ∈ xs) (hp : p x = true) (hq : q x = false) : xs.countP q < xs.countP p := by
  obtain ⟨before, after, rfl⟩ := List.append_of_mem hx
  have h1 := List.countP_mono_left (l := before) fun y _ => hle y
  have h2 := List.countP_mono_left (l := after) fun y _ => hle y
  simp only [List.countP_append, List.countP_cons, hp, hq, if_true, Bool.false_eq_true, if_false]
  omega

/-- A node without a document extends nothing. -/
theorem isOpen_of_doc_nil {t : Tree} {n : Node} (h : n.doc = []) : t.isOpen n = false := by
  simp [Tree.isOpen, h, TypeRecord.extendsOf?, Fields.get, Json.asText]

/-- Making sure of a path that is not reached leaves fewer to be reached. -/
theorem unreached_ensure_lt {t : Tree} {n : Node} {target : String} (hn : n ∈ t.nodes)
    (hext : TypeRecord.extendsOf? n.doc = some target)
    (hopen : t.reaches (Path.ofName t.rootName target) = false) :
    unreached (t.ensure (Path.ofName t.rootName target) true) < unreached t := by
  obtain ⟨added, hnodes, hblank⟩ := Tree.nodes_ensure_synthetic t (Path.ofName t.rootName target)
  have hadded : added.countP (t.ensure (Path.ofName t.rootName target) true).isOpen = 0 :=
    List.countP_eq_zero.2 fun m hm => by
      simp [isOpen_of_doc_nil (congrArg Node.doc (hblank m hm))]
  rw [unreached, unreached, hnodes, List.countP_append, hadded, Nat.add_zero]
  refine countP_lt ?_ hn (by simp [Tree.isOpen, hext, hopen])
    (by simp [Tree.isOpen, hext, Tree.reaches_ensure])
  intro m hm
  simp only [Tree.isOpen, Option.any_eq_true, Tree.rootName_ensure] at hm ⊢
  obtain ⟨name, hname, hnot⟩ := hm
  refine ⟨name, hname, ?_⟩
  cases hr : t.reaches (Path.ofName t.rootName name) with
  | false => rfl
  | true => simp [Tree.reaches_ensure_of_reaches _ hr] at hnot

/-- Meeting the record name of an extending node leaves fewer to be met. -/
theorem unmet_append_lt {t : Tree} {n : Node} {met : List String} (hn : n ∈ t.nodes)
    (hext : (TypeRecord.extendsOf? n.doc).isSome) (hnew : t.recordName n ∉ met) :
    unmet t (met ++ [t.recordName n]) < unmet t met := by
  refine countP_lt ?_ hn (by simp [Tree.isUnmet, hext, hnew]) (by simp [Tree.isUnmet])
  intro m hm
  simp only [Tree.isUnmet, Bool.and_eq_true, Bool.not_eq_true', List.contains_eq_mem,
    decide_eq_false_iff_not, List.mem_append, not_or] at hm ⊢
  exact ⟨hm.1, hm.2.1⟩

theorem extends?_of_ofFields {doc : Fields} {fallback : String} {record : TypeRecord}
    (h : TypeRecord.ofFields doc fallback = .ok record) :
    record.extends? = TypeRecord.extendsOf? doc ∧
      record.name = TypeRecord.nameOf doc fallback := by
  unfold TypeRecord.ofFields at h
  cases he : OwnExclusions.ofJson (doc.get "excludes") with
  | error f => simp [he, bind, Except.bind] at h
  | ok e =>
      simp only [he, bind, Except.bind, pure, Except.pure, Except.ok.injEq] at h
      subst h
      exact ⟨rfl, rfl⟩

/-- Climbs from the node at a path; `met` holds the record names met below it, in order. -/
def climb (t : Tree) (p : Path) (met : List String) : Progress Lineage :=
  match (t.nodeAt p).resolution with
  | some settled => ⟨t, [], .ok ⟨[], settled.excluded⟩⟩
  | none =>
    match _hrecord : TypeRecord.ofFields (t.nodeAt p).doc (t.fullName p) with
    | .error fault => ⟨t, [], .error fault⟩
    | .ok record =>
      if _hmet : record.name ∈ met then ⟨t, [], .error (.cycle (met ++ [record.name]))⟩
      else
        match _hextends : record.extends? with
        | none => ⟨t, [], .ok ⟨[(p, record)], .empty⟩⟩
        | some target =>
          let above := Path.ofName t.rootName target
          let remarks := Tree.pathRemarks t.rootName target
          if above = p then
            ⟨t.ensure above true, remarks, .error (.cycle (met ++ [record.name, target]))⟩
          else
            let rest := climb (t.ensure above true) above (met ++ [record.name])
            ⟨rest.tree, remarks ++ rest.log, rest.outcome.map (·.push p record)⟩
termination_by (unreached t, unmet t met)
decreasing_by
  obtain ⟨he, hname⟩ := extends?_of_ofFields _hrecord
  rw [_hextends] at he
  have hdoc : (t.nodeAt p).doc ≠ [] := by
    intro h
    simp [h, TypeRecord.extendsOf?, Fields.get, Json.asText] at he
  have hrec : t.recordName (t.nodeAt p) = record.name := by
    rw [Tree.recordName, Tree.path_nodeAt, hname]
  have hn := Tree.nodeAt_mem hdoc
  by_cases hreach : t.reaches (Path.ofName t.rootName target) = true
  · rw [Tree.ensure_of_reaches hreach, ← hrec]
    exact Prod.Lex.right _ (unmet_append_lt hn (by simp [← he]) (by rwa [hrec]))
  · exact Prod.Lex.left _ _ (unreached_ensure_lt hn he.symm (by simpa using hreach))

end Exclusion

end ApiTypings
