import PathCorpus.Arena.Basic

/-!
# Walking an arena

The walk from the root downwards: a node, then the subtrees of its children in order. It keeps no
marks, so on an arena with a cycle it has no end of its own and is cut off after a given number of
steps; on a tree, or any walkable arena, the number of nodes is enough. The walk stops for good
when it comes to an id that names no node.

Each step also knows its depth, the number of links from the root, which is one more than that of
the node that led there.
-/

namespace PathCorpus.Arena

/-! ## §1: The walk -/

/-- A node met on a walk: its id and the number of links down to it. -/
structure Stop where
  id : Nat
  depth : Nat
  deriving DecidableEq, Repr

/-- At most `steps` steps of the walk that has `pending` still to visit, the first one next. -/
def walkFrom (t : Arena) : (steps : Nat) → (pending : List Stop) → List Stop
  | 0, _ => []
  | _ + 1, [] => []
  | steps + 1, s :: pending =>
    match t.node? s.id with
    | none => []
    | some n => s :: walkFrom t steps (n.children.map (⟨·, s.depth + 1⟩) ++ pending)

/-- At most `steps` steps from the root. -/
def walk (t : Arena) (steps : Nat) : List Stop := t.walkFrom steps (t.root?.toList.map (⟨·, 0⟩))

/-! ## §2: What a walk finds -/

/-- The first ids in pre-order, at most `steps` of them. -/
def preOrderUpTo (t : Arena) (steps : Nat) : List Nat := (t.walk steps).map (·.id)

/-- The ids below the root in pre-order. -/
def preOrder (t : Arena) : List Nat := t.preOrderUpTo t.size

/-- The node exists and is a leaf with a token to show. -/
def isTerminal (t : Arena) (id : Nat) : Bool := (t.node? id).any (·.isTerminal)

/-- The leaves with a token to show, in pre-order. -/
def leaves (t : Arena) : List Nat := t.preOrder.filter t.isTerminal

/-- The depth of every node by id, zero for the root and for nodes that no walk reaches. -/
def depths (t : Arena) : Array Nat :=
  (t.walk t.size).foldl (fun ds s => ds.setIfInBounds s.id s.depth) (.replicate t.size 0)

end PathCorpus.Arena
