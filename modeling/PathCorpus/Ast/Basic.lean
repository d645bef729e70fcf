/-!
# Syntax trees

A syntax tree as such, without ids: a label, a token if the node carries one, and the children in
source order. An absent token and an empty one are different.
-/

namespace PathCorpus

/-- An ordered tree of labels and tokens. -/
inductive Ast where
  | node (label : String) (token? : Option String) (children : List Ast)
  deriving Inhabited

namespace Ast

/-- The label at the top. -/
def label : Ast → String
  | .node label _ _ => label

/-- The token at the top. -/
def token? : Ast → Option String
  | .node _ token? _ => token?

/-- The subtrees below the top. -/
def children : Ast → List Ast
  | .node _ _ children => children

/-! ## §1: Equality -/

mutual

/-- Two trees are equal or not. -/
def decEq : (a b : Ast) → Decidable (a = b)
  | .node l k as, .node l' k' bs =>
    if h : l = l' ∧ k = k' then
      match decEqAll as bs with
      | .isTrue hs => .isTrue (by rw [h.1, h.2, hs])
      | .isFalse hs => .isFalse fun e => hs (by injection e)
    else .isFalse fun e => h (by injection e with hl hk; exact ⟨hl, hk⟩)

/-- Two lists of trees are equal or not. -/
def decEqAll : (as bs : List Ast) → Decidable (as = bs)
  | [], [] => .isTrue rfl
  | [], _ :: _ => .isFalse nofun
  | _ :: _, [] => .isFalse nofun
  | a :: as, b :: bs =>
    match decEq a b, decEqAll as bs with
    | .isTrue h, .isTrue hs => .isTrue (by rw [h, hs])
    | .isFalse h, _ => .isFalse fun e => h (by injection e)
    | _, .isFalse hs => .isFalse fun e => hs (by injection e)

end

instance : DecidableEq Ast := decEq

/-! ## §2: Size and levels -/

mutual

/-- The number of nodes. -/
def size : Ast → Nat
  | .node _ _ children => sizeAll children + 1

/-- The number of nodes of several trees. -/
def sizeAll : List Ast → Nat
  | [] => 0
  | a :: as => size a + sizeAll as

end

theorem size_eq (a : Ast) : a.size = sizeAll a.children + 1 := by
  cases a; rfl

theorem sizeAll_append (as bs : List Ast) : sizeAll (as ++ bs) = sizeAll as + sizeAll bs := by
  induction as with
  | nil => exact (Nat.zero_add _).symm
  | cons a as ih => rw [List.cons_append, sizeAll, sizeAll, ih, Nat.add_assoc]

mutual

/-- The number of nodes on the longest way down, the top counted. -/
def levels : Ast → Nat
  | .node _ _ children => levelsAll children + 1

/-- The greatest number of levels among several trees. -/
def levelsAll : List Ast → Nat
  | [] => 0
  | a :: as => max (levels a) (levelsAll as)

end

end Ast

end PathCorpus
