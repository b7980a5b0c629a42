import ApiTypings.Namespace.Tree

/-!
The slots of a tree.

Seen from outside, nodes stand at positions, and what is asked about the node at a position is
answered with positions: where its parent stands, where its children stand, and which of them has a
name. A slot keeps these answers for one node. Slots come about as nodes are created: a new node
stands behind all others, and its parent takes it up behind its other children.

Much of what a slot holds could be gathered from other slots. It is kept so that nothing has to be
searched for.
-/

namespace ApiTypings

/-- What is kept of the node at a position: its own name, its position and that of its parent, the
depth at which it is declared, whether it is a child of the root, and its children in order, once as
a list and once by their names. -/
structure Slot where
  name : String
  index : Nat
  parent : Option Nat
  depth : Nat
  inGlobal : Bool
  children : List Nat
  childIndex : List (String × Nat)
  deriving DecidableEq, Repr, Inhabited

namespace Slot

/-- The slot of a root. -/
def root (name : String) : Slot := ⟨name, 0, none, 0, false, [], []⟩

/-- The slot of a new node below the node at a position. -/
def below (parent : Slot) (position : Nat) (name : String) (index : Nat) : Slot :=
  let inGlobal := parent.parent.isNone
  ⟨name, index, some position, if inGlobal then 0 else parent.depth + 1, inGlobal, [], []⟩

/-- A slot with one more child. -/
def adopt (s : Slot) (name : String) (index : Nat) : Slot :=
  { s with
    children := s.children ++ [index]
    childIndex := s.childIndex ++ [(name, index)] }

end Slot

namespace Slots

/-- The position of the child of a name. -/
def child? (slots : List Slot) (parent : Nat) (name : String) : Option Nat :=
  slots[parent]?.bind fun s => s.childIndex.lookup name

/-- Slots with a new node below the node at a position. -/
def attach (slots : List Slot) (parent : Nat) (name : String) : List Slot :=
  match slots[parent]? with
  | none => slots
  | some s =>
    slots.set parent (s.adopt name slots.length) ++ [s.below parent name slots.length]

/-- The position of the child of a name, which is created if it is missing. -/
def getOrCreate (slots : List Slot) (parent : Nat) (name : String) : List Slot × Nat :=
  match child? slots parent name with
  | some i => (slots, i)
  | none => (attach slots parent name, slots.length)

/-- The position to which segments lead from another one. -/
def find? (slots : List Slot) : Nat → List String → Option Nat
  | i, [] => some i
  | i, name :: rest => (child? slots i name).bind fun j => find? slots j rest

/-- Slots with one for a path: that of the root, or one below the node at the path above. -/
def place (rootName : String) (slots : List Slot) (p : Path) : List Slot :=
  match p.getLast? with
  | none => slots ++ [Slot.root rootName]
  | some name =>
    match find? slots 0 p.dropLast with
    | none => slots
    | some parent => attach slots parent name

/-- The slots of nodes created one after another, at the paths given. -/
def ofPaths (rootName : String) (ps : List Path) : List Slot := ps.foldl (place rootName) []

end Slots

/-- The slots of a tree. -/
def Tree.slots (t : Tree) : List Slot := Slots.ofPaths t.rootName (t.nodes.map Node.path)

end ApiTypings
