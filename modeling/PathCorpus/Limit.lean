/-!
# Limits

An upper bound that may be absent. Heights, widths, counts and ranks are all cut off by one of
these. In written form a limit is one unsigned 64-bit word, and the greatest word stands for
"no limit"; inside the library the two cases are kept apart.
-/

namespace PathCorpus

/-- The greatest unsigned 64-bit word, the written form of "no limit". -/
def maxWord : Nat := UInt64.size - 1

/-- An upper bound on a quantity, or none. -/
inductive Limit where
  /-- Values up to and including `n` are let through. -/
  | atMost (n : Nat)
  /-- Every value is let through. -/
  | unlimited
  deriving DecidableEq, Repr, Inhabited

namespace Limit

/-! ## §1: Words -/

/-- The limit that a word stands for. -/
def ofNat (n : Nat) : Limit := if n = maxWord then .unlimited else .atMost n

/-- The word that a limit is written as. -/
def toNat : Limit → Nat
  | .atMost n => n
  | .unlimited => maxWord

/-! ## §2: What a limit lets through -/

/-- `l.Admits n`: the value `n` is within the limit. -/
def Admits : Limit → Nat → Prop
  | .atMost n, k => k ≤ n
  | .unlimited, _ => True

instance (l : Limit) (k : Nat) : Decidable (l.Admits k) :=
  match l with
  | .atMost n => inferInstanceAs (Decidable (k ≤ n))
  | .unlimited => inferInstanceAs (Decidable True)

@[simp] theorem admits_atMost {n k : Nat} : (atMost n).Admits k ↔ k ≤ n := Iff.rfl

@[simp] theorem admits_unlimited {k : Nat} : unlimited.Admits k := trivial

/-- What is let through stays so when it gets smaller. -/
theorem Admits.mono {l : Limit} {m n : Nat} (h : l.Admits n) (hle : m ≤ n) : l.Admits m := by
  cases l with
  | atMost k => exact Nat.le_trans hle h
  | unlimited => trivial

/-- A limit is positive when it lets at least one through. -/
def Positive (l : Limit) : Prop := l ≠ .atMost 0

instance (l : Limit) : Decidable l.Positive := inferInstanceAs (Decidable (l ≠ .atMost 0))

/-- The first elements of a list, as many as the limit lets through. -/
def take {α : Type} : Limit → List α → List α
  | .atMost n, xs => xs.take n
  | .unlimited, xs => xs

/-- The lesser of a count and the limit. -/
def cap : Limit → Nat → Nat
  | .atMost n, k => min n k
  | .unlimited, k => k

theorem mem_of_mem_take {α : Type} {l : Limit} {xs : List α} {x : α} (h : x ∈ l.take xs) :
    x ∈ xs := by
  cases l with
  | atMost n => exact List.mem_of_mem_take h
  | unlimited => exact h

theorem length_take {α : Type} (l : Limit) (xs : List α) :
    (l.take xs).length = l.cap xs.length := by
  cases l <;> simp [take, cap]

theorem take_map {α β : Type} (l : Limit) (f : α → β) (xs : List α) :
    l.take (xs.map f) = (l.take xs).map f := by
  cases l with
  | atMost n => exact List.map_take.symm
  | unlimited => rfl

end Limit

end PathCorpus
