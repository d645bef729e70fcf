import PathCorpus.Ast.Numbering
import PathCorpus.Proofs.Arena.Walk

/-!
# Syntax trees numbered in pre-order

An arena shows a syntax tree at an id if the nodes from there down have its labels, its tokens and
its children in order. The pre-order numbering of a syntax tree is an arena that shows it at the
root, is accepted by the check and lists its own ids in order.

The arena is first written down as a table of rows, a row for each node with all its links in
place. Appending nodes one by one builds that table, and whatever arena holds the rows of a tree
lays out its forest and shows it.

## Main statements

- `Arena.toList_nodes_addTree`: appending a tree appends its rows.
- `Arena.Holds.laysOut_forest`, `Arena.Holds.showsAll`: what the rows of trees amount to.
- `Ast.isNumbering_inPreOrder`: the pre-order numbering as a whole.
-/

namespace PathCorpus

/-! ## §1: Arenas that show a syntax tree -/

namespace Arena

mutual

/-- The nodes from `id` down show a syntax tree. -/
def Shows (t : Arena) (id : Nat) : Ast → Prop
  | .node label token? children =>
    ∃ n, t.node? id = some n ∧ n.label = label ∧ n.token? = token? ∧ t.ShowsAll n.children children

/-- Nodes show syntax trees, one each. -/
def ShowsAll (t : Arena) : (ids : List Nat) → List Ast → Prop
  | [], [] => True
  | id :: ids, a :: as => t.Shows id a ∧ t.ShowsAll ids as
  | _, _ => False

end

/-- The arena is the syntax tree `a`, numbered in pre-order. -/
structure IsNumbering (t : Arena) (a : Ast) : Prop where
  size : t.size = a.size
  root : t.root? = some 0
  shows : t.Shows 0 a
  preOrder : t.preOrder = List.range t.size
  accepted : t.check = .ok ()

end Arena

/-! ## §2: Rows -/

namespace Ast

/-- The ids of the tops of trees that are numbered one after another from `first` on. -/
def topIds (first : Nat) : List Ast → List Nat
  | [] => []
  | a :: as => first :: topIds (first + a.size) as

mutual

/-- The nodes of a tree numbered from `first` on. -/
def rows (first : Nat) (parent? : Option Nat) : Ast → List Node
  | .node label token? children =>
    { label, token?, parent?, children := topIds (first + 1) children } ::
      rowsAll (first + 1) first children

/-- The nodes of the subtrees of a node, numbered from `first` on. -/
def rowsAll (first parent : Nat) : List Ast → List Node
  | [] => []
  | a :: as => rows first (some parent) a ++ rowsAll (first + a.size) parent as

end

mutual

/-- What is below the top of a tree that is numbered from `first` on. -/
def underTop (first : Nat) : Ast → Forest
  | .node _ _ children => forest (first + 1) children

/-- The ids of trees that are numbered one after another from `first` on. -/
def forest (first : Nat) : List Ast → Forest
  | [] => .nil
  | a :: as => .cons first (underTop first a) (forest (first + a.size) as)

end

mutual

@[simp] theorem length_rows (first : Nat) (parent? : Option Nat) :
    (a : Ast) → (a.rows first parent?).length = a.size
  | .node _ _ children => by simp [rows, size, length_rowsAll _ _ children]

@[simp] theorem length_rowsAll (first parent : Nat) :
    (as : List Ast) → (rowsAll first parent as).length = sizeAll as
  | [] => rfl
  | a :: as => by simp [rowsAll, sizeAll, length_rows _ _ a, length_rowsAll _ _ as]

end

@[simp] theorem tops_forest (first : Nat) (as : List Ast) :
    (forest first as).tops = topIds first as := by
  induction as generalizing first with
  | nil => rfl
  | cons a as ih => simp [forest, Forest.tops, topIds, ih]

mutual

/-- A tree numbered from `first` on has its ids in order. -/
theorem ids_underTop (first : Nat) :
    (a : Ast) → first :: (a.underTop first).ids = List.range' first a.size
  | .node _ _ children => by
    rw [underTop, ids_forest, size, List.range'_succ]

theorem ids_forest (first : Nat) :
    (as : List Ast) → (forest first as).ids = List.range' first (sizeAll as)
  | [] => rfl
  | a :: as => by
    rw [forest, Forest.ids, ← List.cons_append, ids_underTop first a, ids_forest _ as, sizeAll]
    exact List.range'_append_1

end

end Ast

/-! ## §3: Appending a tree appends its rows -/

/-- The node with more children after those it has. -/
def Node.withMore (n : Node) (ids : List Nat) : Node := { n with children := n.children ++ ids }

@[simp] theorem Node.withMore_nil (n : Node) : n.withMore [] = n := by
  simp [withMore]

@[simp] theorem Node.withMore_withMore (n : Node) (ids ids' : List Nat) :
    (n.withMore ids).withMore ids' = n.withMore (ids ++ ids') := by
  simp [withMore]

private theorem modify_append_of_lt {α : Type} {l : List α} (l' : List α) {i : Nat} (f : α → α)
    (h : i < l.length) : (l ++ l').modify i f = l.modify i f ++ l' := by
  induction l generalizing i with
  | nil => simp at h
  | cons a l ih =>
    cases i with
    | zero => simp
    | succ i => simp [ih (Nat.lt_of_succ_lt_succ h)]

private theorem modify_append_length {α : Type} (l : List α) (a : α) (f : α → α) :
    (l ++ [a]).modify l.length f = l ++ [f a] := by
  induction l with
  | nil => rfl
  | cons b l ih => simp [ih]

namespace Arena

variable {t : Arena}

@[simp] theorem size_nodes (t : Arena) : t.nodes.size = t.size := rfl

theorem toList_nodes_addChild {parent : Nat} (h : parent < t.size) (label : String)
    (token? : Option String) :
    (t.addChild parent label token?).nodes.toList =
      t.nodes.toList.modify parent (·.withMore [t.size]) ++
        [{ label, token?, parent? := some parent }] := by
  -- the parent field is written to the node that was pushed, the child list to one before it
  have hlast := modify_append_length t.nodes.toList { label, token? }
    fun n => { n with parent? := some parent }
  rw [Array.length_toList, size_nodes] at hlast
  simp only [addChild, addNode, link, putParent, pushChild, modify, Array.toList_modify,
    Array.toList_push, hlast]
  exact modify_append_of_lt _ _ h

/-- The node that comes last gets its children, which come right after it. -/
private theorem modify_withMore_last (l : List Node) (n : Node) (ids : List Nat) {i : Nat}
    (hi : i = l.length) : (l ++ [n]).modify i (·.withMore ids) = l ++ [n.withMore ids] := by
  subst hi
  exact modify_append_length l n _

mutual

theorem toList_nodes_addTree {t : Arena} {parent : Nat} (h : parent < t.size) :
    (a : Ast) → (t.addTree (some parent) a).nodes.toList =
      t.nodes.toList.modify parent (·.withMore [t.size]) ++ a.rows t.size (some parent)
  | .node label token? children => by
    rw [addTree, toList_nodes_addTrees (by simp) children, size_addChild,
      toList_nodes_addChild h, modify_withMore_last _ _ _ (by simp), Ast.rows]
    simp [Node.withMore]

/-- Each tree adds its top to the children of the parent, and its rows at the end. -/
theorem toList_nodes_addTrees {t : Arena} {parent : Nat} (h : parent < t.size) :
    (as : List Ast) → (t.addTrees parent as).nodes.toList =
      t.nodes.toList.modify parent (·.withMore (Ast.topIds t.size as)) ++
        Ast.rowsAll t.size parent as
  | [] => by
    have hid : (fun n : Node => n.withMore []) = id := funext Node.withMore_nil
    rw [addTrees, Ast.topIds, Ast.rowsAll, hid, List.modify_id, List.append_nil]
  | a :: as => by
    -- the parent gets the top of `a` first and the other tops later, in two changes of one row
    have hfirst := toList_nodes_addTree h a
    have hsize : (t.addTree (some parent) a).size = t.size + a.size := by
      rw [← size_nodes, ← Array.length_toList, hfirst]
      simp
    rw [addTrees, toList_nodes_addTrees (by omega) as, hfirst, hsize,
      modify_append_of_lt _ _ (by simpa using h), List.modify_modify_eq, Ast.rowsAll, Ast.topIds]
    simp [Function.comp_def]

end

theorem toList_nodes_inPreOrder (a : Ast) : a.inPreOrder.nodes.toList = a.rows 0 none := by
  cases a with
  | node label token? children =>
    rw [Ast.inPreOrder, addTree, toList_nodes_addTrees (by simp) children, Ast.rows]
    simp [addNode, empty, Node.withMore, size]

mutual

theorem root?_addTree {t : Arena} {root : Nat} (h : t.root? = some root) (parent : Nat) :
    (a : Ast) → (t.addTree (some parent) a).root? = some root
  | .node label token? children => by
    rw [addTree]
    exact root?_addTrees (by simp [addChild, addNode, link, putParent, pushChild, modify, h]) _ _

theorem root?_addTrees {t : Arena} {root : Nat} (h : t.root? = some root) (parent : Nat) :
    (as : List Ast) → (t.addTrees parent as).root? = some root
  | [] => h
  | a :: as => by
    rw [addTrees]
    exact root?_addTrees (root?_addTree h parent a) parent as

end

theorem root?_inPreOrder (a : Ast) : a.inPreOrder.root? = some 0 := by
  cases a with
  | node label token? children =>
    rw [Ast.inPreOrder, addTree]
    exact root?_addTrees rfl _ _

/-! ## §4: What rows amount to -/

/-- The rows stand in the arena one after another, from `first` on. -/
def Holds (t : Arena) (first : Nat) : List Node → Prop
  | [] => True
  | n :: rows => t.node? first = some n ∧ t.Holds (first + 1) rows

theorem holds_append {first : Nat} {rows rows' : List Node} :
    t.Holds first (rows ++ rows') ↔ t.Holds first rows ∧ t.Holds (first + rows.length) rows' := by
  induction rows generalizing first with
  | nil => simp [Holds]
  | cons n rows ih => simp [Holds, ih, and_assoc, Nat.add_comm, Nat.add_left_comm]

theorem holds_of_drop_eq {first : Nat} {rows : List Node} (h : t.nodes.toList.drop first = rows) :
    t.Holds first rows := by
  induction rows generalizing first with
  | nil => trivial
  | cons n rows ih =>
    have hfirst : t.nodes.toList[first]? = some n := by
      rw [← List.head?_drop, h]
      rfl
    have hothers : t.nodes.toList.drop (first + 1) = rows := by
      rw [← List.tail_drop, h]
      rfl
    exact ⟨by simpa [node?] using hfirst, ih hothers⟩

mutual

theorem Holds.shows {t : Arena} {first : Nat} {parent? : Option Nat} :
    {a : Ast} → t.Holds first (a.rows first parent?) → t.Shows first a
  | .node label token? children, h => by
    rw [Ast.rows] at h
    exact ⟨_, h.1, rfl, rfl, h.2.showsAll⟩

theorem Holds.showsAll {t : Arena} {first parent : Nat} :
    {as : List Ast} → t.Holds first (Ast.rowsAll first parent as) →
      t.ShowsAll (Ast.topIds first as) as
  | [], _ => trivial
  | a :: as, h => by
    rw [Ast.rowsAll, holds_append, Ast.length_rows] at h
    exact ⟨h.1.shows, h.2.showsAll⟩

end

/-- The top of a tree names the parent that its row does. -/
theorem Holds.parentId? {first : Nat} {parent? : Option Nat} {a : Ast}
    (h : t.Holds first (a.rows first parent?)) : t.parentId? first = parent? := by
  cases a with
  | node label token? children =>
    rw [Ast.rows] at h
    simp [Arena.parentId?, h.1]

theorem Holds.parentId?_of_mem {first parent : Nat} {as : List Ast}
    (h : t.Holds first (Ast.rowsAll first parent as)) :
    ∀ id ∈ Ast.topIds first as, t.parentId? id = some parent := by
  induction as generalizing first with
  | nil => simp [Ast.topIds]
  | cons a as ih =>
    rw [Ast.rowsAll, holds_append, Ast.length_rows] at h
    intro id hid
    -- the first top is that of `a`, the others are those of `as`
    rcases List.mem_cons.mp hid with rfl | hid
    · exact h.1.parentId?
    · exact ih h.2 id hid

mutual

theorem Holds.bears {t : Arena} {first : Nat} {parent? : Option Nat} :
    {a : Ast} → t.Holds first (a.rows first parent?) →
      t.Bears first (a.underTop first) ∧ t.LaysOut (a.underTop first)
  | .node label token? children, h => by
    rw [Ast.rows] at h
    obtain ⟨hfirst, hothers⟩ := h
    -- a row that stands in the arena has an id in use
    have hlt : first < t.size := by
      rw [← Nat.not_le, ← node?_eq_none, hfirst]
      simp
    refine ⟨⟨hlt, ?_, ?_⟩, hothers.laysOut_forest⟩
    · rw [childIds_eq_children hfirst, Ast.underTop, Ast.tops_forest]
    · rw [Ast.underTop, Ast.tops_forest]
      exact hothers.parentId?_of_mem

theorem Holds.laysOut_forest {t : Arena} {first parent : Nat} :
    {as : List Ast} → t.Holds first (Ast.rowsAll first parent as) → t.LaysOut (Ast.forest first as)
  | [], _ => trivial
  | a :: as, h => by
    rw [Ast.rowsAll, holds_append, Ast.length_rows] at h
    obtain ⟨hbears, hlaysOut⟩ := h.1.bears
    exact ⟨hbears, hlaysOut, h.2.laysOut_forest⟩

end

end Arena

/-! ## §5: The pre-order numbering -/

namespace Ast

theorem holds_inPreOrder (a : Ast) : a.inPreOrder.Holds 0 (a.rows 0 none) :=
  Arena.holds_of_drop_eq (by rw [List.drop_zero, Arena.toList_nodes_inPreOrder])

theorem ids_inPreOrder (a : Ast) :
    (Forest.cons 0 (a.underTop 0) .nil).ids = List.range a.inPreOrder.size := by
  rw [size_inPreOrder, List.range_eq_range', ← ids_underTop, Forest.ids, Forest.ids,
    List.append_nil]

theorem rooted_inPreOrder (a : Ast) : a.inPreOrder.Rooted 0 (a.underTop 0) where
  named := Arena.root?_inPreOrder a
  noParent := a.holds_inPreOrder.parentId?
  laysOut := ⟨a.holds_inPreOrder.bears.1, a.holds_inPreOrder.bears.2, trivial⟩
  nodup := a.ids_inPreOrder ▸ List.nodup_range

theorem isNumbering_inPreOrder (a : Ast) : a.inPreOrder.IsNumbering a where
  size := size_inPreOrder a
  root := Arena.root?_inPreOrder a
  shows := a.holds_inPreOrder.shows
  preOrder := a.rooted_inPreOrder.preOrder.trans a.ids_inPreOrder
  accepted := by
    rw [Arena.check_eq_ok_iff]
    refine ⟨0, a.underTop 0, a.rooted_inPreOrder, fun i hi => ?_⟩
    rw [a.ids_inPreOrder]
    exact List.mem_range.mpr hi

end Ast

end PathCorpus
