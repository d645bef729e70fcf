import PathCorpus.Arena.Basic

/-!
# Paths between leaves

A path between two leaves climbs from the first to the lowest node above both, its *top*, and goes
down to the second. Without ids it is a *shape*, the labels along it in three parts; with the tokens
at its ends it is a *path context*.

Every look-up of a node can fail, so the functions that read an arena answer with an option; on a
tree none of them fails.
-/

namespace PathCorpus

/-! ## §1: Shapes and contexts -/

/-- The labels along a path. -/
structure PathShape where
  /-- From the first leaf up to the child of the top. -/
  upward : List String
  top : String
  /-- From the child of the top down to the second leaf. -/
  downward : List String
  deriving DecidableEq, Repr

namespace PathShape

/-- The number of links along the path. -/
def height (p : PathShape) : Nat := p.upward.length + p.downward.length

/-- The labels in the order of the path, each with the direction it is passed in. The top counts
as the end of the climb. -/
def directedLabels (p : PathShape) : List String :=
  (p.upward ++ [p.top]).map (· ++ " UP") ++ p.downward.map (· ++ " DOWN")

end PathShape

/-- A shape and the tokens at its ends. -/
structure PathContext where
  startToken : String
  shape : PathShape
  finishToken : String
  deriving DecidableEq, Repr

/-! ## §2: Paths by id -/

/-- A path between two leaves of an arena. -/
structure LeafPath where
  start : Nat
  /-- From `start` up to the child of the top. -/
  upward : List Nat
  top : Nat
  /-- From the child of the top down to `finish`. -/
  downward : List Nat
  finish : Nat
  deriving DecidableEq, Repr

namespace LeafPath

/-- The number of links along the path. -/
def height (p : LeafPath) : Nat := p.upward.length + p.downward.length

/-- The nodes in the order of the path. -/
def nodes (p : LeafPath) : List Nat := p.upward ++ p.top :: p.downward

/-- The labels along the path. -/
def shape? (p : LeafPath) (t : Arena) : Option PathShape := do
  let upward ← p.upward.mapM t.label?
  let top ← t.label? p.top
  let downward ← p.downward.mapM t.label?
  return { upward, top, downward }

/-- The labels along the path and the tokens at its ends. -/
def context? (p : LeafPath) (t : Arena) : Option PathContext := do
  let startToken ← t.tokenText? p.start
  let shape ← p.shape? t
  let finishToken ← t.tokenText? p.finish
  return { startToken, shape, finishToken }

end LeafPath

/-! ## §3: The path between two nodes -/

namespace Arena

/-- Climbs a number of links: the nodes left behind, and the node come to. -/
def climb? (t : Arena) : (links : Nat) → (id : Nat) → Option (List Nat × Nat)
  | 0, id => some ([], id)
  | links + 1, id => do
    let parent ← t.parentId? id
    let (behind, reached) ← climb? t links parent
    return (id :: behind, reached)

/-- Climbs from two nodes of the same depth, side by side, until they meet: the nodes left behind
on the first side, the node where they meet, and those left behind on the second side. -/
def meet? (t : Arena) (depth : Nat) (a b : Nat) : Option (List Nat × Nat × List Nat) :=
  if a = b then some ([], a, [])
  else
    match depth with
    | 0 => none
    | depth + 1 => do
      let p ← t.parentId? a
      let q ← t.parentId? b
      let (left, top, right) ← meet? t depth p q
      return (a :: left, top, b :: right)

/-- The path between two nodes of known depths. The deeper one first climbs to the depth of the
other. -/
def pathBetween? (t : Arena) (start startDepth finish finishDepth : Nat) : Option LeafPath := do
  let (up, a) ← t.climb? (startDepth - finishDepth) start
  let (down, b) ← t.climb? (finishDepth - startDepth) finish
  let (up', top, down') ← t.meet? (min startDepth finishDepth) a b
  return { start, upward := up ++ up', top, downward := (down ++ down').reverse, finish }

end Arena

end PathCorpus
