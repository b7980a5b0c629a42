import ApiTypings.Api.Name
import ApiTypings.Exclusion.Climb

/-!
Resolving exclusions.

A node's effective exclusions are its own and those of the node it extends. Once they are known,
the excluded methods and properties are removed from the node's record, and the node is settled for
good: it keeps its record and its exclusions whatever is resolved afterwards.

A resolution may fail on the way. Nodes settled before the failure stay settled, and nodes created
for an extension stay in the tree.
-/

namespace ApiTypings.Exclusion

/-- The exclusions that a record states itself, without those of events. -/
def ownOf (record : TypeRecord) : Exclusions :=
  ⟨record.excludes.methods, record.excludes.properties⟩

/-- The members whose names are not excluded. -/
def membersBeyond {α : Type} (nameOf : α → Json) (excluded : List NameKey) :
    List α → Except Fault (List α)
  | [] => .ok []
  | m :: rest => do
    let dropped ← (nameOf m).isAmong excluded
    let others ← membersBeyond nameOf excluded rest
    pure (if dropped then others else m :: others)

/-- The members left of one kind; without exclusions no name is looked at. -/
def remaining {α : Type} (nameOf : α → Json) (excluded : List String) (members : List α) :
    Except Fault (List α) :=
  if excluded.isEmpty then .ok members
  else membersBeyond nameOf (excluded.map .text) members

/-- A record without its excluded members; dropped methods are reported. -/
def removeExcluded (record : TypeRecord) (excluded : Exclusions) : Report TypeRecord := do
  let methods ← Report.ofExcept (remaining Method.name excluded.methods record.methods)
  let dropped := record.methods.length - methods.length
  if dropped = 0 then pure ()
  else
    Report.tell .debug .exclusions
      (record.name ++ ": dropped " ++ toString dropped ++ " excluded methods.")
  let properties ← Report.ofExcept (remaining Property.name excluded.properties record.properties)
  pure { record with methods := methods, properties := properties }

/-- Settles the node at a path, given what it inherits. The result is what it passes on. -/
def settleOne (t : Tree) (p : Path) (record : TypeRecord) (inherited : Exclusions) :
    Progress Exclusions :=
  let excluded := (ownOf record).union inherited
  let left := removeExcluded record excluded
  match left.outcome with
  | .error fault => ⟨t, left.log, .error fault⟩
  | .ok record =>
    ⟨t.modify p fun n => { n with resolution := some ⟨record, excluded⟩ }, left.log, .ok excluded⟩

/-- Settles the nodes of a lineage from the topmost down. -/
def settle (t : Tree) : List (Path × TypeRecord) → Exclusions → Progress Exclusions
  | [], inherited => ⟨t, [], .ok inherited⟩
  | (p, record) :: rest, inherited =>
    (settleOne t p record inherited).andThen fun t excluded => settle t rest excluded

/-- Resolves the exclusions of the node at a path and of all that it extends. -/
def resolve (t : Tree) (p : Path) : Progress Exclusions :=
  (climb t p []).andThen fun t lineage => settle t lineage.pending lineage.inherited

/-- The fault of a node that extends itself, if the node was named by a position from the end. Its
climb does not know the node again by its position, and so finds the circle only by the name of the
record. -/
def seenFromEnd : Fault → Fault
  | .cycle [name, _] => .cycle [name, name]
  | fault => fault

/-- Resolves the exclusions of the node at a position. -/
def resolveAt (t : Tree) (position : Int) : Progress Exclusions :=
  match t.atPosition position with
  | .error fault => ⟨t, [], .error fault⟩
  | .ok n =>
    let x := resolve t n.path
    if position < 0 then { x with outcome := x.outcome.mapError seenFromEnd } else x

/-- Resolves nodes one after another. -/
def resolveEach (t : Tree) : List Path → Progress Unit
  | [] => ⟨t, [], .ok ()⟩
  | p :: rest => (resolve t p).andThen fun t _ => resolveEach t rest

/-- The paths of the nodes of a tree after the first `count`. -/
def pathsFrom (count : Nat) (t : Tree) : List Path := (t.nodes.drop count).map Node.path

/-- Resolves every node, and then those that were created on the way. The latter have no document
and extend nothing, so that resolving them creates no more. -/
def resolveAll (t : Tree) : Progress Unit :=
  (resolveEach t (pathsFrom 0 t)).andThen fun t' _ => resolveEach t' (pathsFrom t.size t')

/-- Whether every node of a tree is settled. -/
def isSettled (t : Tree) : Bool := t.nodes.all (·.resolution.isSome)

end ApiTypings.Exclusion
