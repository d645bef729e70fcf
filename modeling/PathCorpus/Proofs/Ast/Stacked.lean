import Mathlib.Data.List.Flatten
import PathCorpus.Ast.Stacked
import PathCorpus.Proofs.Ast.ByFamilies

/-!
# The loop with a stack numbers faithfully

A tree on the stack has its top in the arena and nothing below it yet. Taking it off and going
on until all that came after it is off the stack too grows just this tree. So the loop does what
the recursion over families does, and the arena reads back as the tree that went in.

The ids follow the walk: going through the nodes in pre-order, their children are 1, 2,
3 and so on. So a node has consecutive children, and they come after those of every
node that the walk meets before.

## Main statements

- `Arena.growPending_cons`: what the loop does with the first tree of its stack.
- `Arena.Shows.readBack?`: reading a tree back.
- `Arena.flatMap_childIds_byFamilies`: the children in the order of the walk.
- `Ast.byStack_faithful`: the loop as a whole.
-/

namespace PathCorpus

namespace Arena

/-! ## §1: The loop and the recursion -/

theorem appendTops_eq (t : Arena) (parent : Nat) (as : List Ast) :
    t.appendTops parent as = (t.addFamily parent as, List.range' t.size as.length) := by
  induction as generalizing t with
  | nil => rfl
  | cons a as ih =>
    rw [appendTops, ih, size_addChild, List.length_cons, List.range'_succ]
    rfl

mutual

/-- The first tree on the stack gets all that is below its top before the others have their turn. -/
theorem growPending_cons (t : Arena) (id : Nat) (pending : Pending) :
    (a : Ast) → t.growPending ((a, id) :: pending) = (t.growTree id a).growPending pending
  | .node label token? children => by
    -- the family goes on top of what is pending, so it is grown first
    rw [growPending, appendTops_eq, growTree, Ast.children]
    exact growPending_zip (t.addFamily id children) t.size pending children

/-- The trees of a family have their turns one after another. -/
theorem growPending_zip (t : Arena) (id : Nat) (pending : Pending) :
    (as : List Ast) → t.growPending (as.zip (List.range' id as.length) ++ pending) =
      (t.growTrees id as).growPending pending
  | [] => rfl
  | a :: as => by
    rw [List.length_cons, List.range'_succ, List.zip_cons_cons, List.cons_append,
      growPending_cons t id _ a, growPending_zip _ (id + 1) pending as, growTrees]

end

end Arena

theorem Ast.byStack_eq_byFamilies (a : Ast) : a.byStack = a.byFamilies := by
  rw [byStack, byFamilies, Arena.growPending_cons, Arena.growPending]
  rfl

namespace Arena

/-! ## §2: Reading a tree back -/

/-- The syntax tree that hangs from a node, if it exists and has no more than `levels` levels. -/
def readBack? (t : Arena) : (levels : Nat) → (id : Nat) → Option Ast
  | 0, _ => none
  | levels + 1, id => do
    let n ← t.node? id
    let children ← n.children.mapM (t.readBack? levels)
    return .node n.label n.token? children

mutual

/-- What an arena shows is what is read back, if this is not cut off. -/
theorem Shows.readBack? {t : Arena} {id levels : Nat} :
    {a : Ast} → t.Shows id a → a.levels ≤ levels → t.readBack? levels id = some a
  | .node label token? children, h, hlevels => by
    obtain ⟨n, hn, rfl, rfl, hshows⟩ := h
    rw [Ast.levels] at hlevels
    obtain ⟨levels, rfl⟩ : ∃ l, levels = l + 1 := ⟨levels - 1, by omega⟩
    have hchildren := hshows.mapM_readBack? (Nat.le_of_succ_le_succ hlevels)
    simp [Arena.readBack?, hn, hchildren]

theorem ShowsAll.mapM_readBack? {t : Arena} {levels : Nat} :
    {ids : List Nat} → {as : List Ast} → t.ShowsAll ids as → Ast.levelsAll as ≤ levels →
      ids.mapM (t.readBack? levels) = some as
  | [], [], _, _ => rfl
  | id :: ids, a :: as, h, hlevels => by
    rw [Ast.levelsAll, Nat.max_le] at hlevels
    rw [List.mapM_cons, h.1.readBack? hlevels.1, h.2.mapM_readBack? hlevels.2]
    rfl

end

end Arena

/-! ## §3: Children in the order of the walk -/

namespace Ast

variable {t : Arena}

mutual

/-- The children of the nodes below a top, in the order of the walk. -/
theorem flatMap_childIds_underFamilies (next : Nat) :
    (a : Ast) → t.LaysOut (a.underFamilies next) →
      List.range' next a.children.length ++ (a.underFamilies next).ids.flatMap t.childIds =
        List.range' next (sizeAll a.children)
  | .node _ _ cs, h => by
    have hlength : sizeAll cs = cs.length + (grownRowsAll next (next + cs.length) cs).length := by
      rw [Nat.add_comm, length_grownRowsAll]
    rw [underFamilies] at h ⊢
    rw [flatMap_childIds_families next (next + cs.length) cs h, children, hlength]
    exact List.range'_append_1

theorem flatMap_childIds_families (id next : Nat) :
    (as : List Ast) → t.LaysOut (families id next as) →
      (families id next as).ids.flatMap t.childIds =
        List.range' next (grownRowsAll id next as).length
  | [], _ => rfl
  | a :: as, h => by
    obtain ⟨⟨-, hchildren, -⟩, hbelow, hbeside⟩ := h
    rw [tops_underFamilies] at hchildren
    rw [families, Forest.ids, List.flatMap_cons, List.flatMap_append, hchildren,
      ← List.append_assoc, flatMap_childIds_underFamilies next a hbelow,
      flatMap_childIds_families (id + 1) (next + sizeAll a.children) as hbeside, grownRowsAll,
      List.length_append, length_grownRows]
    exact List.range'_append_1

end

/-- In pre-order, the children of the nodes are all ids but that of the root, in order. -/
theorem flatMap_childIds_byFamilies (a : Ast) :
    a.byFamilies.preOrder.flatMap a.byFamilies.childIds =
      List.range' 1 (a.byFamilies.size - 1) := by
  have h := a.rooted_byFamilies
  obtain ⟨⟨-, hchildren, -⟩, hbelow, -⟩ := h.laysOut
  rw [h.preOrder, Forest.ids, Forest.ids, List.append_nil, List.flatMap_cons, hchildren,
    tops_underFamilies, flatMap_childIds_underFamilies 1 a hbelow, size_byFamilies, a.size_eq,
    Nat.add_sub_cancel]

mutual

/-- The children of a node have ids in a row, and these come after its own. -/
theorem exists_childIds_underFamilies (next : Nat) :
    (a : Ast) → t.LaysOut (a.underFamilies next) → ∀ i ∈ (a.underFamilies next).ids,
      ∃ first length, i < first ∧ t.childIds i = List.range' first length
  | .node _ _ cs, h => by
    rw [underFamilies] at h ⊢
    exact exists_childIds_families next (next + cs.length) cs (Nat.le_refl _) h

theorem exists_childIds_families (id next : Nat) :
    (as : List Ast) → id + as.length ≤ next → t.LaysOut (families id next as) →
      ∀ i ∈ (families id next as).ids,
        ∃ first length, i < first ∧ t.childIds i = List.range' first length
  | [], _, _ => by simp [families, Forest.ids]
  | a :: as, hnext, h => by
    obtain ⟨⟨-, hchildren, -⟩, hbelow, hbeside⟩ := h
    rw [tops_underFamilies] at hchildren
    rw [List.length_cons] at hnext
    intro i hi
    simp only [families, Forest.ids, List.mem_cons, List.mem_append] at hi
    -- a top of the family, a node below this one, or one that belongs to the tops beside it
    rcases hi with rfl | hi | hi
    · exact ⟨next, _, by omega, hchildren⟩
    · exact exists_childIds_underFamilies next a hbelow i hi
    · exact exists_childIds_families (id + 1) (next + sizeAll a.children) as (by omega) hbeside i hi

end

/-! ## §4: The loop as a whole -/

/-- **Numbering with a stack is faithful**: there is a node for each node of the tree, the arena
is a tree with root 0, and reading it back from there gives the tree. The children of a node
have ids in a row that come after its own, and the families come in the order of the walk. -/
theorem byStack_faithful (a : Ast) :
    a.byStack = a.byFamilies ∧ a.byStack.size = a.size ∧ a.byStack.check = .ok () ∧
      a.byStack.root? = some 0 ∧
      (∀ levels, a.levels ≤ levels → a.byStack.readBack? levels 0 = some a) ∧
      (∀ id < a.byStack.size, ∃ first length, id < first ∧
        a.byStack.childIds id = List.range' first length) ∧
      ∀ u v, [u, v].Sublist a.byStack.preOrder →
        ∀ x ∈ a.byStack.childIds u, ∀ y ∈ a.byStack.childIds v, x < y := by
  rw [a.byStack_eq_byFamilies]
  have h := a.rooted_byFamilies
  refine ⟨rfl, size_byFamilies a, a.accepted_byFamilies, h.named, fun levels => ?_,
    fun id hid => ?_, fun u v huv x hx y hy => ?_⟩
  · exact a.shows_byFamilies.readBack?
  · obtain ⟨⟨-, hchildren, -⟩, hbelow, -⟩ := h.laysOut
    have hmem := a.ids_byFamilies_perm.mem_iff.mpr (List.mem_range.mpr hid)
    rw [Forest.ids, Forest.ids, List.append_nil] at hmem
    rcases List.mem_cons.mp hmem with rfl | hmem
    · exact ⟨1, _, Nat.zero_lt_one, by rw [hchildren, tops_underFamilies]⟩
    · exact a.exists_childIds_underFamilies 1 hbelow id hmem
  · -- what two nodes have for children is part of a list in order
    have hsub := huv.flatMap a.byFamilies.childIds
    rw [flatMap_childIds_byFamilies] at hsub
    have hlt := (List.pairwise_lt_range' (s := 1) (n := a.byFamilies.size - 1)).sublist hsub
    rw [List.flatMap_cons, List.flatMap_cons, List.flatMap_nil, List.append_nil,
      List.pairwise_append] at hlt
    exact hlt.2.2 x hx y hy

/-- A tree whose ids are neither in pre-order nor level by level. -/
theorem byStack_faithful_uneven :
    let a := Ast.node "R" none [.node "A" (some "") [.node "B" none [.node "C" (some "c") []]],
      .node "D" none [.node "E" none []]]
    a.levels ≤ 4 ∧ a.byStack.readBack? 4 0 = some a ∧ a.byStack.preOrder = [0, 1, 3, 4, 2, 5] ∧
      [3, 2].Sublist a.byStack.preOrder ∧
      ∀ x ∈ a.byStack.childIds 3, ∀ y ∈ a.byStack.childIds 2, x < y := by
  intro a
  obtain ⟨heq, -, -, -, hunfold, -, horder⟩ := a.byStack_faithful
  have hpreOrder : a.byStack.preOrder = [0, 1, 3, 4, 2, 5] := by
    rw [heq]
    decide +kernel
  have hbefore : [3, 2].Sublist a.byStack.preOrder := by
    rw [hpreOrder]
    decide
  exact ⟨by decide, hunfold 4 (by decide), hpreOrder, hbefore, horder 3 2 hbefore⟩

end Ast

end PathCorpus
