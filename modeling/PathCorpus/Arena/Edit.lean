import PathCorpus.Arena.Basic

/-!
# Edits of an arena

Adding nodes, linking them, and writing the reference fields directly. Each half of a link is
written on its own, so an edit can leave an arena that is no tree. `Edit` names every single step
and `Edit.apply` performs it.
-/

namespace PathCorpus

namespace Arena

/-! ## §1: Single fields -/

/-- The arena with one node changed; a missing node changes nothing. -/
def modify (t : Arena) (id : Nat) (f : Node → Node) : Arena :=
  { t with nodes := t.nodes.modify id f }

/-- Writes the parent field of a node. -/
def putParent (t : Arena) (id : Nat) (parent? : Option Nat) : Arena :=
  t.modify id fun n => { n with parent? := parent? }

/-- Appends an id to the child list of a node. -/
def pushChild (t : Arena) (id child : Nat) : Arena :=
  t.modify id fun n => { n with children := n.children ++ [child] }

/-- Names the root. -/
def setRoot (t : Arena) (id : Nat) : Arena := { t with root? := some id }

/-- Leaves the arena without a root. -/
def clearRoot (t : Arena) : Arena := { t with root? := none }

/-! ## §2: Nodes and links -/

/-- Adds a node without links, under the id `t.size`. An arena that has no root takes it as
its root. -/
def addNode (t : Arena) (label : String) (token? : Option String) : Arena :=
  let root? := t.root?.or (some t.size)
  { nodes := t.nodes.push { label, token? }, root? }

/-- Links a child and its parent, each half where its node exists. The child is not taken from
the list of an earlier parent. -/
def link (t : Arena) (child parent : Nat) : Arena :=
  (t.putParent child (some parent)).pushChild parent child

/-- Adds a node, under the id `t.size`, as the last child of `parent`. -/
def addChild (t : Arena) (parent : Nat) (label : String) (token? : Option String) : Arena :=
  let id := t.size
  (t.addNode label token?).link id parent

@[simp] theorem size_modify (t : Arena) (id : Nat) (f : Node → Node) :
    (t.modify id f).size = t.size := by
  simp [modify, size]

@[simp] theorem size_addNode (t : Arena) (label : String) (token? : Option String) :
    (t.addNode label token?).size = t.size + 1 := by
  simp [addNode, size]

@[simp] theorem size_link (t : Arena) (child parent : Nat) :
    (t.link child parent).size = t.size := by
  simp [link, putParent, pushChild]

@[simp] theorem size_addChild (t : Arena) (parent : Nat) (label : String)
    (token? : Option String) : (t.addChild parent label token?).size = t.size + 1 := by
  simp [addChild]

end Arena

/-! ## §3: Steps -/

/-- One step of work on an arena. -/
inductive Edit where
  | addNode (label : String) (token? : Option String)
  | addChild (parent : Nat) (label : String) (token? : Option String)
  | link (child parent : Nat)
  | setRoot (id : Nat)
  | clearRoot
  | pushChild (id child : Nat)
  | putParent (id : Nat) (parent? : Option Nat)
  deriving DecidableEq, Repr

namespace Edit

/-- The arena after a step. -/
def apply : Edit → Arena → Arena
  | .addNode label token?, t => t.addNode label token?
  | .addChild parent label token?, t => t.addChild parent label token?
  | .link child parent, t => t.link child parent
  | .setRoot id, t => t.setRoot id
  | .clearRoot, t => t.clearRoot
  | .pushChild id child, t => t.pushChild id child
  | .putParent id parent?, t => t.putParent id parent?

/-- The arena that steps make from the empty one. -/
def build (steps : List Edit) : Arena := steps.foldl (fun t e => e.apply t) .empty

end Edit

end PathCorpus
