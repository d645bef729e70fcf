import PathCorpus.Arena.Defect
import PathCorpus.Attempt

/-!
# The check as a loop

The check of an arena as a loop over a stack, with a mark for each id and nothing that bounds
it. It looks marks and nodes up by index and relies on what is pending to be in range. Along
with its answer it tells which ids it has visited, the last one first; their number is what it
compares with the size of the arena in the end.
-/

namespace PathCorpus.Arena

open Attempt (entry put)

/-- A check under way: the ids to visit, the next one first, the marks, and the ids visited. -/
structure Survey where
  pending : List Nat
  marks : Array Bool
  visited : List Nat := []
  deriving DecidableEq, Repr

/-- Puts the children of a node on the stack, the last one on top, unless one is at fault. -/
def pushChildren (t : Arena) (node : Nat) (pending : List Nat) :
    List Nat → Except Defect (List Nat)
  | [] => .ok pending
  | child :: rest =>
    match t.node? child with
    | none => .error (.missingChild node child)
    | some n =>
      if n.parent? = some node then t.pushChildren node (child :: pending) rest
      else .error (.foreignChild node child n.parent?)

/-- One round of the check. It visits the next id, or ends the check with an answer. -/
def surveyNext (t : Arena) (s : Survey) : Attempt ((Except Defect Unit × List Nat) ⊕ Survey) :=
  match s.pending with
  | [] =>
    if s.visited.length = t.size then pure (.inl (.ok (), s.visited))
    else pure (.inl (.error (.unreached (t.size - s.visited.length)), s.visited))
  | id :: pending => do
    if ← entry s.marks id then pure (.inl (.error (.visitedTwice id), s.visited))
    else
      let marks ← put s.marks id true
      let n ← entry t.nodes id
      let visited := id :: s.visited
      match t.pushChildren id pending n.children with
      | .error d => pure (.inl (.error d, visited))
      | .ok pending => pure (.inr { pending, marks, visited })

/-- Goes on with a check to its end. -/
def surveyFrom (t : Arena) (s : Survey) : Attempt (Except Defect Unit × List Nat) :=
  Attempt.loop t.surveyNext s

theorem surveyFrom_eq (t : Arena) (s : Survey) :
    t.surveyFrom s = t.surveyNext s >>= Sum.elim pure t.surveyFrom := Attempt.loop_eq _ s

/-- The answer of the check, and the ids that it has visited. -/
def survey (t : Arena) : Attempt (Except Defect Unit × List Nat) :=
  if t.isEmpty then pure (.error .noNodes, [])
  else
    match t.root? with
    | none => pure (.error .noRoot, [])
    | some root =>
      match t.node? root with
      | none => pure (.error .noRoot, [])
      | some n =>
        if n.parent?.isSome then pure (.error (.rootHasParent root), [])
        else t.surveyFrom { pending := [root], marks := .replicate t.size false }

end PathCorpus.Arena
