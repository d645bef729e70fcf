import PathCorpus.Ast.Numbering

/-!
# Numbering by families with a stack

The numbering by families as a loop, for trees of any depth. On the stack are trees whose tops
have been appended and whose families have not, each with the id of its top. A step takes the
last tree, appends all of its children, and puts them on the stack in reverse, so that the
leftmost child is the next to get its family.
-/

namespace PathCorpus

namespace Arena

/-- Appends the tops of some trees as the last children of a node, and tells their ids. -/
def appendTops (t : Arena) (parent : Nat) : List Ast → Arena × List Nat
  | [] => (t, [])
  | a :: as =>
    let id := t.size
    let (t, ids) := (t.addChild parent a.label a.token?).appendTops parent as
    (t, id :: ids)

/-- The trees on a stack with the ids of their tops, the one that comes next first. -/
abbrev Pending := List (Ast × Nat)

/-- The number of nodes of all trees on a stack. -/
def Pending.weight (pending : Pending) : Nat := Ast.sizeAll (pending.map (·.1))

private theorem weight_zip_le (as : List Ast) (ids : List Nat) :
    Pending.weight (as.zip ids) ≤ Ast.sizeAll as := by
  induction as generalizing ids with
  | nil => exact Nat.le_refl _
  | cons a as ih =>
    cases ids with
    | nil => exact Nat.zero_le _
    | cons id ids => exact Nat.add_le_add_left (ih ids) a.size

/-- Appends the families of the trees on a stack and of all trees that come onto it. -/
def growPending (t : Arena) : Pending → Arena
  | [] => t
  | (a, id) :: pending =>
    let (t, ids) := t.appendTops id a.children
    growPending t (a.children.zip ids ++ pending)
termination_by pending => pending.weight
decreasing_by
  have hchildren : Ast.sizeAll ((a.children.zip ids).map (·.1)) ≤ Ast.sizeAll a.children :=
    weight_zip_le a.children ids
  rw [Pending.weight, Pending.weight, List.map_append, Ast.sizeAll_append, List.map_cons,
    Ast.sizeAll, a.size_eq]
  omega

end Arena

/-- The arena of a tree, its ids family by family, made with a stack. -/
def Ast.byStack (a : Ast) : Arena :=
  let id := Arena.empty.size
  (Arena.empty.addNode a.label a.token?).growPending [(a, id)]

end PathCorpus
