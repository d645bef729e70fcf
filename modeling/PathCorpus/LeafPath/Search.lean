import PathCorpus.Arena.Defect
import PathCorpus.Arena.Walk
import PathCorpus.LeafPath.Basic
import PathCorpus.Limit
import PathCorpus.Setting

/-!
# Searching a tree for paths

The search goes over the pairs of leaves in the order of the tree: each leaf in turn as
the start, and for it the leaves after it, the nearest first. Two bounds apply. The
*width* of a pair is how far its leaves are apart in the order of leaves; the *height* is
the number of links along the path.

A search is a value that gives one path at a time. It holds the leaves that are still to be
starts, the current one first, and the partners of the current one that are not tried yet, so
what it has not come to costs nothing.
-/

namespace PathCorpus

/-! ## §1: Bounds -/

/-- Bounds on the height and the width of a path, both positive. -/
structure PathBounds where
  maxHeight : Limit
  maxWidth : Limit
  maxHeight_positive : maxHeight.Positive := by decide
  maxWidth_positive : maxWidth.Positive := by decide
  deriving DecidableEq, Repr

namespace PathBounds

/-- Every path is within bounds. -/
def unbounded : PathBounds := { maxHeight := .unlimited, maxWidth := .unlimited }

/-- Bounds from limits, of which the height is checked first. -/
def of (maxHeight maxWidth : Limit) : Except NonPositive PathBounds :=
  if hh : maxHeight.Positive then
    if hw : maxWidth.Positive then .ok ⟨maxHeight, maxWidth, hh, hw⟩
    else .error ⟨.maxWidth⟩
  else .error ⟨.maxHeight⟩

end PathBounds

/-! ## §2: The state of a search -/

/-- A search under way. -/
structure Search where
  tree : Arena
  depths : Array Nat
  bounds : PathBounds
  /-- The leaves from the current start on. -/
  starts : List Nat
  /-- The partners of the current start that are not tried yet. -/
  ahead : List Nat
  deriving Repr

namespace Search

/-- The search that goes on with the given leaves, the first of them as the start. -/
def enter (s : Search) (starts : List Nat) : Search :=
  { s with starts, ahead := s.bounds.maxWidth.take starts.tail }

/-- The path of a pair, if it is within the height bound. A pair whose depths alone differ by more
than the bound is passed over without climbing. -/
def admissible? (s : Search) (start finish : Nat) : Option LeafPath :=
  match s.depths[start]?, s.depths[finish]? with
  | some d, some e =>
    if s.bounds.maxHeight.Admits (d - e + (e - d)) then
      (s.tree.pathBetween? start d finish e).filter fun p => s.bounds.maxHeight.Admits p.height
    else none
  | _, _ => none

/-- Goes through the pairs until one of them has a path: the path, and the starts and partners
that are left. -/
def nextFrom (path? : Nat → Nat → Option LeafPath) (width : Limit) :
    (starts ahead : List Nat) → Option LeafPath × List Nat × List Nat
  | [], ahead => (none, [], ahead)
  -- no partner is left for this start
  | _ :: later, [] => nextFrom path? width later (width.take later.tail)
  | start :: later, finish :: ahead =>
    match path? start finish with
    | some p => (some p, start :: later, ahead)
    | none => nextFrom path? width (start :: later) ahead
termination_by starts ahead => (starts.length, ahead.length)

/-- The next path, if there is one, and the search after it. -/
def next (s : Search) : Option LeafPath × Search :=
  let (path?, starts, ahead) := nextFrom s.admissible? s.bounds.maxWidth s.starts s.ahead
  (path?, { s with starts, ahead })

/-! ## §3: Several paths -/

/-- Appends the next paths, at most `n` of them. -/
def takeInto (found : Array LeafPath) : (n : Nat) → Search → Array LeafPath
  | 0, _ => found
  | n + 1, s =>
    match s.next with
    | (some p, s) => takeInto (found.push p) n s
    | (none, _) => found

/-- The next paths, at most `n` of them. -/
def take (n : Nat) (s : Search) : List LeafPath := (takeInto #[] n s).toList

/-- No more pairs than this are left. -/
def pairBound (s : Search) : Nat := s.ahead.length + s.starts.length * s.starts.length

/-- The calls of `next` that come to as many paths as the limit lets through. -/
def calls (s : Search) : Limit → Nat
  | .atMost n => n
  | .unlimited => s.pairBound

/-- All paths that are left. -/
def toList (s : Search) : List LeafPath := s.take s.pairBound

/-- The next paths, as many as the limit lets through. -/
def upTo (s : Search) : Limit → List LeafPath
  | .atMost n => s.take n
  | .unlimited => s.toList

end Search

/-! ## §4: Searching an arena -/

namespace Arena

/-- The search for the paths of an arena that is a tree. -/
def search (t : Arena) (bounds : PathBounds) : Except Defect Search :=
  match t.check with
  | .error d => .error d
  | .ok () =>
    let s : Search := { tree := t, depths := t.depths, bounds, starts := [], ahead := [] }
    .ok (s.enter t.leaves)

/-- The path contexts of a tree in the order of the search, as many as the limit lets through. -/
def contexts (t : Arena) (bounds : PathBounds) (limit : Limit) : Except Defect (List PathContext) :=
  (t.search bounds).map fun s => (s.upTo limit).filterMap (·.context? t)

end Arena

end PathCorpus
