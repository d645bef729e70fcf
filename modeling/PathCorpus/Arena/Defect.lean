import PathCorpus.Arena.Basic

/-!
# Whether an arena is a tree

The check walks down from the root. Ids to visit wait on a stack; each visited id is marked, and
its children are checked in order before they are put on the stack, so that the last child is
visited first. A child has to exist and to name this node as its parent. Coming to a marked node
is a defect, and so are nodes left unmarked at the end.

The walk ends because each step marks a node that was not marked (`Marks.unmarked`).
-/

namespace PathCorpus

/-- Why an arena is not a tree. -/
inductive Defect where
  | noNodes
  | noRoot
  | rootHasParent (root : Nat)
  | missingChild (node child : Nat)
  | foreignChild (node child : Nat) (parent? : Option Nat)
  | visitedTwice (node : Nat)
  | unreached (count : Nat)
  deriving DecidableEq, Repr

namespace Defect

/-- An optional id as it is shown in a message. -/
def showId? : Option Nat → String
  | none => "None"
  | some id => "Some(" ++ toString id ++ ")"

/-- The wording of a defect. -/
def message : Defect → String
  | .noNodes => "tree has no nodes"
  | .noRoot => "tree has no root"
  | .rootHasParent root => "root node " ++ toString root ++ " has a parent"
  | .missingChild node child =>
    "node " ++ toString node ++ " refers to missing node " ++ toString child
  | .foreignChild node child parent? =>
    "node " ++ toString node ++ " lists child " ++ toString child ++ " whose parent is "
      ++ showId? parent?
  | .visitedTwice node =>
    "node " ++ toString node ++ " is reachable more than once (cycle or shared child)"
  | .unreached count => toString count ++ " node(s) are not reachable from the root"

end Defect

namespace Arena

/-! ## §1: Marks -/

/-- A mark for every node. -/
abbrev Marks (t : Arena) := Vector Bool t.size

namespace Marks

/-- The number of nodes without a mark. -/
def unmarked {t : Arena} (marks : t.Marks) : Nat := marks.count false

theorem unmarked_set_lt {t : Arena} {marks : t.Marks} {i : Fin t.size} (h : marks[i] = false) :
    unmarked (marks.set i true) < unmarked marks := by
  -- the mark that is set was one of those counted
  have hpos : 0 < marks.count false := Vector.count_pos_iff.2 (h ▸ Vector.getElem_mem i.isLt)
  rw [unmarked, unmarked, Vector.count_set, if_pos (by simpa using h), if_neg (by decide)]
  omega

end Marks

/-! ## §2: The walk -/

/-- The children of a node in order, or the first one at fault. -/
def checkChildren (t : Arena) (node : Nat) : List Nat → Except Defect (List (Fin t.size))
  | [] => .ok []
  | child :: rest =>
    if h : child < t.size then
      let parent? := (t.get ⟨child, h⟩).parent?
      if parent? = some node then (checkChildren t node rest).map (⟨child, h⟩ :: ·)
      else .error (.foreignChild node child parent?)
    else .error (.missingChild node child)

/-- Visits the pending ids, last come first, and what they lead to. The answer is the marks at
the end. -/
def checkFrom (t : Arena) (pending : List (Fin t.size)) (marks : t.Marks) :
    Except Defect t.Marks :=
  match pending with
  | [] => .ok marks
  | i :: pending =>
    if h : marks[i] = true then .error (.visitedTwice i)
    else
      -- all children are checked before any of them is visited
      match t.checkChildren i (t.get i).children with
      | .error d => .error d
      | .ok children => checkFrom t (children.reverse ++ pending) (marks.set i true)
termination_by marks.unmarked
decreasing_by exact Marks.unmarked_set_lt (by simpa using h)

/-- The marks after the walk from a root that exists and names no parent. -/
def checkLinks (t : Arena) : Except Defect t.Marks :=
  if t.isEmpty then .error .noNodes
  else
    match t.root? with
    | none => .error .noRoot
    | some root =>
      if h : root < t.size then
        if (t.get ⟨root, h⟩).parent?.isSome then .error (.rootHasParent root)
        else t.checkFrom [⟨root, h⟩] (.replicate t.size false)
      else .error .noRoot

/-- Succeeds on a tree and names a defect of anything else. -/
def check (t : Arena) : Except Defect Unit :=
  match t.checkLinks with
  | .error d => .error d
  | .ok marks => if marks.unmarked = 0 then .ok () else .error (.unreached marks.unmarked)

/-- The part below the root is a tree, whatever else the arena holds: there are no defects but
unreached nodes. On such an arena every walk ends. -/
def isWalkable (t : Arena) : Bool :=
  match t.check with
  | .ok () => true
  | .error (.unreached _) => true
  | .error _ => false

end Arena

end PathCorpus
