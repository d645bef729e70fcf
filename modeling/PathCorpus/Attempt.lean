import Mathlib.Data.PFun

/-!
# Attempts

A computation may take things for granted: that an index is within its table, that a node to climb
from names a parent, that a loop comes to an end. An attempt is such a computation with nothing
granted. It gives a value only if all of this was so, and `x = pure a` says that it was.
-/

namespace PathCorpus

/-- What a computation can meet instead of what it takes for granted. -/
inductive Mishap where
  /-- An index past the end of a table. -/
  | outOfRange (index : Nat)
  /-- A node to climb from that names no parent. -/
  | noParent (id : Nat)
  deriving DecidableEq, Repr

/-- A computation that gives a value, meets a mishap, or never ends. -/
abbrev Attempt := ExceptT Mishap Part

namespace Attempt

/-! ## §1: Tables -/

variable {α : Type}

/-- The entry of a table at an index. -/
def entry (xs : Array α) (i : Nat) : Attempt α :=
  match xs[i]? with
  | some x => pure x
  | none => throw (.outOfRange i)

/-- The table with another entry at an index. -/
def put (xs : Array α) (i : Nat) (x : α) : Attempt (Array α) :=
  if i < xs.size then pure (xs.setIfInBounds i x) else throw (.outOfRange i)

theorem entry_eq {xs : Array α} {i : Nat} {x : α} (h : xs[i]? = some x) : entry xs i = pure x := by
  simp [entry, h]

theorem put_eq {xs : Array α} {i : Nat} (h : i < xs.size) (x : α) :
    put xs i x = pure (xs.setIfInBounds i x) := by
  simp [put, h]

/-! ## §2: Loops -/

variable {σ ρ : Type}

/-- One round of a loop. It ends the loop with a result or with a mishap, or goes on. -/
def round (step : σ → Attempt (ρ ⊕ σ)) : σ →. Except Mishap ρ ⊕ σ := fun s =>
  (step s).run.map fun
    | .ok (.inl result) => .inl (.ok result)
    | .ok (.inr s) => .inr s
    | .error mishap => .inl (.error mishap)

/-- Rounds until one of them has a result. With no such round the loop never ends. -/
def loop (step : σ → Attempt (ρ ⊕ σ)) (s : σ) : Attempt ρ := (round step).fix s

theorem fix_eq_bind {α β : Type} (f : α →. β ⊕ α) (a : α) :
    f.fix a = (f a).bind (Sum.elim Part.some f.fix) := by
  ext b
  rw [PFun.mem_fix_iff, Part.mem_bind_iff]
  constructor
  · rintro (hb | ⟨a', ha', hb⟩)
    · exact ⟨.inl b, hb, Part.mem_some b⟩
    · exact ⟨.inr a', ha', hb⟩
  · rintro ⟨b' | a', h, hb⟩
    · obtain rfl := Part.mem_some_iff.mp hb
      exact .inl h
    · exact .inr ⟨a', h, hb⟩

/-- **A loop** is a round of it and then, unless that was the last one, the loop again. -/
theorem loop_eq (step : σ → Attempt (ρ ⊕ σ)) (s : σ) :
    loop step s = step s >>= Sum.elim pure (loop step) := by
  rw [loop, fix_eq_bind, round, Part.bind_map]
  refine congrArg (step s).run.bind (funext fun outcome => ?_)
  rcases outcome with mishap | result | s <;> rfl

end Attempt

end PathCorpus
