import PathCorpus.Arena.Walk
import PathCorpus.Attempt

/-!
# Walks without a bound

The walk from the root as a loop that nothing cuts off. It may never end, and where it looks into a
table it may look past the end. The tables that it fills are the ids in the order of the walk, the
leaves, and the depths. The depth of a node is not carried along: it is one more than the depth that
the table holds for the parent, so it relies on the walk to come to the parent first.
-/

namespace PathCorpus.Arena

open Attempt (entry put)

/-! ## §1: The loop -/

/-- One step of a walk with ids still to visit, the first one next, and with what is known from
node to node. The walk ends with nothing pending, or at an id that names no node. -/
def visitNext {σ : Type} (t : Arena) (visit : σ → Nat → Node → Attempt σ) :
    List Nat × σ → Attempt (σ ⊕ List Nat × σ)
  | ([], known) => pure (.inl known)
  | (id :: pending, known) =>
    match t.node? id with
    | none => pure (.inl known)
    | some n => do
      let known ← visit known id n
      pure (.inr (n.children ++ pending, known))

/-- Goes on with a walk to its end. -/
def visitFrom {σ : Type} (t : Arena) (visit : σ → Nat → Node → Attempt σ) (pending : List Nat)
    (known : σ) : Attempt σ :=
  Attempt.loop (t.visitNext visit) (pending, known)

theorem visitFrom_nil {σ : Type} (t : Arena) (visit : σ → Nat → Node → Attempt σ) (known : σ) :
    t.visitFrom visit [] known = pure known := by
  rw [visitFrom, Attempt.loop_eq, visitNext, pure_bind, Sum.elim_inl]

theorem visitFrom_cons {σ : Type} {t : Arena} {id : Nat} {n : Node} (h : t.node? id = some n)
    (visit : σ → Nat → Node → Attempt σ) (pending : List Nat) (known : σ) :
    t.visitFrom visit (id :: pending) known =
      visit known id n >>= t.visitFrom visit (n.children ++ pending) := by
  rw [visitFrom, Attempt.loop_eq, visitNext, h]
  simp only [bind_assoc, pure_bind, Sum.elim_inr]
  rfl

/-- The walk from the root. -/
def visitAll {σ : Type} (t : Arena) (visit : σ → Nat → Node → Attempt σ) (known : σ) : Attempt σ :=
  t.visitFrom visit t.root?.toList known

/-! ## §2: Tables -/

/-- The ids in the order of the walk. -/
def orderTable (t : Arena) : Attempt (Array Nat) :=
  t.visitAll (fun ids id _ => pure (ids.push id)) #[]

/-- The leaves with a token to show, in the order of the walk. -/
def leafTable (t : Arena) : Attempt (Array Nat) :=
  t.visitAll (fun ids id n => pure (if n.isTerminal then ids.push id else ids)) #[]

/-- Writes the depth of a node, if it has a parent to tell it from. -/
def writeDepth (depths : Array Nat) (id : Nat) (n : Node) : Attempt (Array Nat) :=
  match n.parent? with
  | none => pure depths
  | some parent => do
    let depth ← entry depths parent
    put depths id (depth + 1)

/-- The depth of every node by id, zero where none was written. -/
def depthTable (t : Arena) : Attempt (Array Nat) :=
  t.visitAll writeDepth (.replicate t.size 0)

end PathCorpus.Arena
