import PathCorpus.Arena.Edit
import PathCorpus.Ast.Basic

/-!
# Numbering the nodes of a syntax tree

Two ways to lay a syntax tree out in an arena. They give the same tree under different ids.

In *pre-order* a node comes right before its first subtree, so ids read like the text of the tree.
*By families* all children of a node get consecutive ids at once, and then each child's own family
follows, the leftmost first; ids are then neither in pre-order nor level by level.

Main statements: `size_inPreOrder` and `size_byFamilies`, each way makes one node per node.
-/

namespace PathCorpus

namespace Arena

/-! ## §1: Pre-order -/

mutual

/-- Appends a tree, under a parent unless it is the whole. -/
def addTree (t : Arena) (parent? : Option Nat) : Ast → Arena
  | .node label token? children =>
    let id := t.size
    let t :=
      match parent? with
      | some parent => t.addChild parent label token?
      | none => t.addNode label token?
    t.addTrees id children

/-- Appends trees one after another as the last children of a node. -/
def addTrees (t : Arena) (parent : Nat) : List Ast → Arena
  | [] => t
  | a :: as => (t.addTree (some parent) a).addTrees parent as

end

/-! ## §2: Families -/

/-- Appends the tops of some trees as the last children of a node. -/
def addFamily (t : Arena) (parent : Nat) (children : List Ast) : Arena :=
  children.foldl (fun t a => t.addChild parent a.label a.token?) t

mutual

/-- Appends what is below the top of a tree whose top has the id `id`. -/
def growTree (t : Arena) (id : Nat) : Ast → Arena
  | .node _ _ children =>
    -- the children get the ids from here on
    let first := t.size
    (t.addFamily id children).growTrees first children

/-- Appends what is below the tops of trees whose tops have consecutive ids from `id` on. -/
def growTrees (t : Arena) (id : Nat) : List Ast → Arena
  | [] => t
  | a :: as => (t.growTree id a).growTrees (id + 1) as

end

end Arena

namespace Ast

/-- The arena of a tree, its ids in pre-order. -/
def inPreOrder (a : Ast) : Arena := Arena.empty.addTree none a

/-- The arena of a tree, its ids family by family. -/
def byFamilies (a : Ast) : Arena := (Arena.empty.addNode a.label a.token?).growTree 0 a

end Ast

/-! ## §3: One node per node -/

mutual

private theorem size_addTree (t : Arena) (parent? : Option Nat) :
    (a : Ast) → (t.addTree parent? a).size = t.size + a.size
  | .node _ _ children => by
    cases parent? <;> simp [Arena.addTree, Ast.size, size_addTrees _ _ children] <;> omega

private theorem size_addTrees (t : Arena) (parent : Nat) :
    (as : List Ast) → (t.addTrees parent as).size = t.size + Ast.sizeAll as
  | [] => by simp [Arena.addTrees, Ast.sizeAll]
  | a :: as => by
    simp [Arena.addTrees, Ast.sizeAll, size_addTrees _ _ as, size_addTree _ _ a]
    omega

end

theorem size_inPreOrder (a : Ast) : a.inPreOrder.size = a.size := by
  simp [Ast.inPreOrder, size_addTree]

private theorem size_addFamily (t : Arena) (parent : Nat) (as : List Ast) :
    (t.addFamily parent as).size = t.size + as.length := by
  induction as generalizing t with
  | nil => rfl
  | cons a as ih =>
    simp only [Arena.addFamily, List.foldl_cons] at ih ⊢
    simp [ih]
    omega

mutual

private theorem size_growTree (t : Arena) (id : Nat) :
    (a : Ast) → (t.growTree id a).size + 1 = t.size + a.size
  | .node _ _ children => by
    have h := size_growTrees (t.addFamily id children) t.size children
    rw [size_addFamily] at h
    simp only [Arena.growTree, Ast.size]
    omega

private theorem size_growTrees (t : Arena) (id : Nat) :
    (as : List Ast) → (t.growTrees id as).size + as.length = t.size + Ast.sizeAll as
  | [] => by simp [Arena.growTrees, Ast.sizeAll]
  | a :: as => by
    have h := size_growTrees (t.growTree id a) (id + 1) as
    have ha := size_growTree t id a
    simp only [Arena.growTrees, Ast.sizeAll, List.length_cons]
    omega

end

theorem size_byFamilies (a : Ast) : a.byFamilies.size = a.size := by
  have h := size_growTree (Arena.empty.addNode a.label a.token?) 0 a
  simp only [Arena.size_addNode, Arena.size_empty] at h
  simp only [Ast.byFamilies]
  omega

end PathCorpus
