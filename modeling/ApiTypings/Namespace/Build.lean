import ApiTypings.Document.Merge
import ApiTypings.Namespace.Tree

/-!
Building a tree from an API description.

A description maps names to records. Each record is merged into the node that its name leads to;
records are taken in the order of the description, which is thereby the order in which nodes are
created and declared.
-/

namespace ApiTypings

/-- What an operation leaves behind: the tree as far as the operation came, the entries it wrote,
and its result or the fault that ended it. -/
structure Progress (α : Type) where
  tree : Tree
  log : List Entry
  outcome : Except Fault α

namespace Progress

variable {α β : Type}

/-- Goes on with the tree and the result of an operation, if it succeeded. -/
def andThen (x : Progress α) (f : Tree → α → Progress β) : Progress β :=
  match x.outcome with
  | .ok a =>
    let y := f x.tree a
    ⟨y.tree, x.log ++ y.log, y.outcome⟩
  | .error fault => ⟨x.tree, x.log, .error fault⟩

theorem andThen_of_ok {x : Progress α} {a : α} (h : x.outcome = .ok a)
    (f : Tree → α → Progress β) :
    x.andThen f = ⟨(f x.tree a).tree, x.log ++ (f x.tree a).log, (f x.tree a).outcome⟩ := by
  rw [andThen, h]

theorem andThen_of_error {x : Progress α} {fault : Fault} (h : x.outcome = .error fault)
    (f : Tree → α → Progress β) : x.andThen f = ⟨x.tree, x.log, .error fault⟩ := by
  rw [andThen, h]

/-- If what goes on succeeds, then so did the operation before. -/
theorem andThen_eq_ok {x : Progress α} {f : Tree → α → Progress β} {b : β}
    (h : (x.andThen f).outcome = .ok b) :
    ∃ a, x.outcome = .ok a ∧ (f x.tree a).outcome = .ok b ∧
      (x.andThen f).tree = (f x.tree a).tree := by
  cases hx : x.outcome with
  | error fault => simp [andThen_of_error hx] at h
  | ok a =>
      rw [andThen_of_ok hx] at h ⊢
      exact ⟨a, rfl, h, rfl⟩

theorem andThen_assoc {γ : Type} (x : Progress α) (f : Tree → α → Progress β)
    (g : Tree → β → Progress γ) :
    (x.andThen f).andThen g = x.andThen fun t a => (f t a).andThen g := by
  cases hx : x.outcome with
  | error fault => rw [andThen_of_error hx, andThen_of_error hx, andThen_of_error rfl]
  | ok a =>
      rw [andThen_of_ok hx, andThen_of_ok hx]
      cases hf : (f x.tree a).outcome with
      | error fault => rw [andThen_of_error hf, andThen_of_error rfl]
      | ok b => rw [andThen_of_ok hf, andThen_of_ok rfl, List.append_assoc]

/-- Entries written before an operation stay in front of all others. -/
theorem andThen_after (log : List Entry) (x : Progress α) (f : Tree → α → Progress β) :
    Progress.andThen ⟨x.tree, log ++ x.log, x.outcome⟩ f =
      ⟨(x.andThen f).tree, log ++ (x.andThen f).log, (x.andThen f).outcome⟩ := by
  cases hx : x.outcome with
  | error fault => rw [andThen_of_error hx, andThen_of_error rfl]
  | ok a => rw [andThen_of_ok hx, andThen_of_ok rfl, List.append_assoc]

theorem andThen_map {γ : Type} (x : Progress α) (g : α → β) (f : Tree → β → Progress γ) :
    Progress.andThen ⟨x.tree, x.log, x.outcome.map g⟩ f = x.andThen fun t a => f t (g a) := by
  cases hx : x.outcome with
  | error fault => rw [andThen_of_error hx, andThen_of_error rfl]
  | ok a => rw [andThen_of_ok hx, andThen_of_ok rfl]

/-- The tree that an operation arrives at, as a report. -/
def toReport (x : Progress α) : Report (Tree × α) :=
  ExceptT.mk ⟨x.outcome.map fun a => (x.tree, a), x.log⟩

end Progress

namespace Tree

/-- Where the version of a description is kept. -/
def versionKey : String := "__version"

/-- The name that places a record: its own, or else the one it is filed under; it has to be a text
that is not empty. -/
def recordName? (api : Fields) (fallback : String) : Option String :=
  let own := api.get "name"
  let name := if own.truthy then own.text? else some fallback
  name.filter (· ≠ "")

/-- Merges a document into the node at a path. -/
def absorb (t : Tree) (p : Path) (api : Fields) : Tree × Option Fault :=
  let r := Document.mergeFields api (t.nodeAt p).doc
  (t.modify p fun n => { n with doc := r.value }, r.fault)

/-- Adds a record. The result is the path of the node that received it; a record without a usable
name is left out, which leads to the root. -/
def addRecord (t : Tree) (api : Fields) (fallback : String) : Progress Path :=
  match recordName? api fallback with
  | none => ⟨t, [⟨.debug, .namespaces, "Skipping record without a usable name."⟩], .ok []⟩
  | some name =>
    let isRoot := name = t.rootName
    let p := if isRoot then [] else Path.ofName t.rootName name
    let remarks := if isRoot then [] else pathRemarks t.rootName name
    let (tree, fault) := (t.ensure p false).absorb p api
    ⟨tree, remarks, match fault with | none => .ok p | some fault => .error fault⟩

/-- Adds the records of a description, in order. Values that are no objects are not records. -/
def addRecords (t : Tree) : List (String × Json) → Progress Unit
  | [] => ⟨t, [], .ok ()⟩
  | (key, .obj api) :: rest =>
    (t.addRecord api key).andThen fun t _ => t.addRecords rest
  | _ :: rest => t.addRecords rest

/-- The version that a description states. -/
def versionOf (apis : Fields) : String := ((apis.get versionKey).text?).getD ""

/-- The tree of a description. -/
def build (apis : Json) (rootName : String) : Report Tree :=
  match apis with
  | .obj apis => do
    let (tree, _) ← ((rooted rootName (versionOf apis)).addRecords apis).toReport
    Report.tell .debug .namespaces
      ("Namespace tree built with " ++ toString tree.size ++ " nodes.")
    pure tree
  | _ => Report.ofExcept (.error .notAnObject)

end Tree

end ApiTypings
