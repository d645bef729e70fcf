/-!
# Arenas

Nodes of a syntax tree kept in one array. A node is named by its position, its *id*, and refers to
its parent and its children by id. Nothing here says that the references fit together: an arena may
have missing nodes, shared children, cycles, or no root. `Arena.Defect` says when an arena is a
tree; `Ast` is the tree without ids.
-/

namespace PathCorpus

/-- A node: its label, the token it carries if any, and the ids it refers to. Its own id is its
position and is noted nowhere else. -/
structure Node where
  label : String
  token? : Option String := none
  parent? : Option Nat := none
  /-- The children in source order. -/
  children : List Nat := []
  deriving DecidableEq, Repr, Inhabited

namespace Node

/-- A node without children. -/
def isLeaf (n : Node) : Bool := n.children.isEmpty

/-- The token, and nothing where there is none. -/
def tokenText (n : Node) : String := n.token?.getD ""

/-- A leaf with a token to show: what a path may start and end at. -/
def isTerminal (n : Node) : Bool := n.isLeaf && !n.tokenText.isEmpty

end Node

/-- Nodes by id, and the id of the root if one is named. -/
structure Arena where
  nodes : Array Node := #[]
  root? : Option Nat := none
  deriving DecidableEq, Repr, Inhabited

namespace Arena

/-- The arena without nodes. -/
def empty : Arena := {}

/-- The number of nodes; ids in use are those below it. -/
def size (t : Arena) : Nat := t.nodes.size

@[simp] theorem size_empty : empty.size = 0 := rfl

/-- The node of an id. -/
def node? (t : Arena) (id : Nat) : Option Node := t.nodes[id]?

/-- The node of an id in use. -/
def get (t : Arena) (id : Fin t.size) : Node :=
  have h : id.val < t.nodes.size := id.isLt
  t.nodes[id.val]

theorem node?_eq_get (t : Arena) (id : Fin t.size) : t.node? id = some (t.get id) :=
  Array.getElem?_eq_getElem id.isLt

theorem node?_eq_none {t : Arena} {id : Nat} : t.node? id = none ↔ t.size ≤ id := by
  simp [node?, size]

/-- The label of a node. -/
def label? (t : Arena) (id : Nat) : Option String := (t.node? id).map (·.label)

/-- The token of a node, empty where the node has none. -/
def tokenText? (t : Arena) (id : Nat) : Option String := (t.node? id).map (·.tokenText)

/-- The ids that a node lists as its children; none for a missing node. -/
def childIds (t : Arena) (id : Nat) : List Nat :=
  match t.node? id with
  | some n => n.children
  | none => []

/-- The id that a node names as its parent. -/
def parentId? (t : Arena) (id : Nat) : Option Nat := (t.node? id).bind (·.parent?)

/-! ## §1: Neighbours that exist -/

/-- The children of a node that exist. -/
def children (t : Arena) (id : Nat) : List Nat := (t.childIds id).filter (· < t.size)

/-- The parent of a node, if it names one that exists. -/
def parent? (t : Arena) (id : Nat) : Option Nat := (t.parentId? id).filter (· < t.size)

/-- The place of a node in its parent's child list: none where that list leaves it out, and zero
for a node without a parent. -/
def siblingIndex? (t : Arena) (id : Nat) : Option Nat :=
  match t.parent? id with
  | some p => (t.childIds p).idxOf? id
  | none => if id < t.size then some 0 else none

/-- An arena without nodes. -/
def isEmpty (t : Arena) : Bool := t.nodes.isEmpty

end Arena

end PathCorpus
