import PathCorpus.Arena.Unbounded
import PathCorpus.LeafPath.Search

/-!
# A search by places

The search for paths with nothing granted. The leaves and the depths are tables that two walks have
filled, a pair is two places in the table of leaves, and the path of a pair is climbed by comparing
entries of the table of depths and following parents. An index may be past the end of its table, a
node to climb from may name no parent, and a climb may go on without ever meeting the other one.
-/

namespace PathCorpus

open Attempt (entry)

/-! ## §1: Climbing -/

namespace Arena

/-- The parent of a node to climb from. -/
def parentOf (t : Arena) (id : Nat) : Attempt Nat := do
  let n ← entry t.nodes id
  match n.parent? with
  | some parent => pure parent
  | none => throw (.noParent id)

/-- Climbs from `a` while it is deeper than `b`: the nodes left behind, and the node come to. -/
def climbTo (t : Arena) (depths : Array Nat) (b a : Nat) (behind : Array Nat) :
    Attempt (Array Nat × Nat) :=
  Attempt.loop (fun (behind, a) => do
    let d ← entry depths a
    let e ← entry depths b
    if e < d then
      let parent ← t.parentOf a
      pure (.inr (behind.push a, parent))
    else pure (.inl (behind, a))) (behind, a)

theorem climbTo_eq (t : Arena) (depths : Array Nat) (b a : Nat) (behind : Array Nat) :
    t.climbTo depths b a behind = (do
      let d ← entry depths a
      let e ← entry depths b
      if e < d then
        let parent ← t.parentOf a
        t.climbTo depths b parent (behind.push a)
      else pure (behind, a)) := by
  rw [climbTo, Attempt.loop_eq]
  simp only [bind_assoc]
  refine bind_congr fun d => bind_congr fun e => ?_
  split <;> simp [climbTo]

/-- Two climbs on their way: the nodes each has left behind and the node it has come to. -/
structure Ascent where
  upward : Array Nat
  a : Nat
  downward : Array Nat
  b : Nat
  deriving DecidableEq, Repr

/-- Goes on with both climbs at once until they come to one node. -/
def climbBoth (t : Arena) (s : Ascent) : Attempt Ascent :=
  Attempt.loop (fun s => do
    if s.a = s.b then pure (.inl s)
    else
      let p ← t.parentOf s.a
      let q ← t.parentOf s.b
      pure (.inr ⟨s.upward.push s.a, p, s.downward.push s.b, q⟩)) s

theorem climbBoth_of_eq (t : Arena) {s : Ascent} (h : s.a = s.b) : t.climbBoth s = pure s := by
  rw [climbBoth, Attempt.loop_eq, if_pos h, pure_bind, Sum.elim_inl]

theorem climbBoth_of_ne (t : Arena) {s : Ascent} (h : s.a ≠ s.b) :
    t.climbBoth s = (do
      let p ← t.parentOf s.a
      let q ← t.parentOf s.b
      t.climbBoth ⟨s.upward.push s.a, p, s.downward.push s.b, q⟩) := by
  rw [climbBoth, Attempt.loop_eq, if_neg h]
  simp [climbBoth]

/-- Climbs from two nodes: the deeper one first, and then both. -/
def ascend (t : Arena) (depths : Array Nat) (start finish : Nat) : Attempt Ascent := do
  let (upward, a) ← t.climbTo depths finish start #[]
  let (downward, b) ← t.climbTo depths a finish #[]
  t.climbBoth { upward, a, downward, b }

end Arena

/-! ## §2: Two places -/

/-- A search under way, at a pair of places in the table of leaves. -/
structure Cursor where
  tree : Arena
  leaves : Array Nat
  depths : Array Nat
  bounds : PathBounds
  i : Nat := 0
  j : Nat := 1
  deriving Repr

namespace Cursor

/-- The last place that is close enough to that of the start. -/
def lastPartner (c : Cursor) : Nat :=
  match c.bounds.maxWidth with
  | .atMost n => min (c.i + n) (c.leaves.size - 1)
  | .unlimited => c.leaves.size - 1

/-- The path of a pair, if it is within the height bound. -/
def build (c : Cursor) (start finish : Nat) : Attempt (Option LeafPath) := do
  let s ← c.tree.ascend c.depths start finish
  if c.bounds.maxHeight.Admits (s.upward.size + s.downward.size) then
    let upward := s.upward.toList
    let downward := s.downward.reverse.toList
    pure (some { start, upward, top := s.a, downward, finish })
  else pure none

/-- One step of a search: the path of the pair at the two places, or the search at the next ones. A
pair whose depths alone differ by more than the bound is passed over without climbing. -/
def step (c : Cursor) : Attempt ((Option LeafPath × Cursor) ⊕ Cursor) := do
  if c.i + 1 < c.leaves.size then
    if c.lastPartner < c.j then pure (.inr { c with i := c.i + 1, j := c.i + 1 + 1 })
    else
      let start ← entry c.leaves c.i
      let finish ← entry c.leaves c.j
      let c := { c with j := c.j + 1 }
      let d ← entry c.depths start
      let e ← entry c.depths finish
      if c.bounds.maxHeight.Admits (d - e + (e - d)) then
        match ← c.build start finish with
        | some p => pure (.inl (some p, c))
        | none => pure (.inr c)
      else pure (.inr c)
  else pure (.inl (none, c))

/-- Goes through the pairs until one of them has a path. -/
def next (c : Cursor) : Attempt (Option LeafPath × Cursor) := Attempt.loop step c

theorem next_eq (c : Cursor) : c.next = c.step >>= Sum.elim pure next := Attempt.loop_eq step c

/-- What a number of calls come to, the last of them. -/
def nth (c : Cursor) : (calls : Nat) → Attempt (Option LeafPath × Cursor)
  | 0 => c.next
  | calls + 1 => do
    let (_, c) ← c.next
    c.nth calls

/-- Calls until there is no path. -/
def collect (c : Cursor) (found : Array LeafPath) : Attempt (Array LeafPath) :=
  Attempt.loop (fun (c, found) => do
    match ← c.next with
    | (some p, c) => pure (.inr (c, found.push p))
    | (none, _) => pure (.inl found)) (c, found)

theorem collect_of_some {c c' : Cursor} {p : LeafPath} (h : c.next = pure (some p, c'))
    (found : Array LeafPath) : c.collect found = c'.collect (found.push p) := by
  rw [collect, Attempt.loop_eq]
  simp only [h, pure_bind, Sum.elim_inr]
  rfl

theorem collect_of_none {c c' : Cursor} (h : c.next = pure (none, c')) (found : Array LeafPath) :
    c.collect found = pure found := by
  rw [collect, Attempt.loop_eq]
  simp only [h, pure_bind, Sum.elim_inl]

end Cursor

/-- The search by places for the paths of an arena that is a tree. -/
def Arena.cursor (t : Arena) (bounds : PathBounds) : Attempt (Except Defect Cursor) :=
  match t.check with
  | .error d => pure (.error d)
  | .ok () => do
    let leaves ← t.leafTable
    let depths ← t.depthTable
    pure (.ok { tree := t, leaves, depths, bounds })

/-! ## §3: The context of a path -/

namespace LeafPath

/-- The label of a node. -/
def labelAt (t : Arena) (id : Nat) : Attempt String := do
  let n ← entry t.nodes id
  pure n.label

/-- The labels along the path and the tokens at its ends. -/
def contextAt (p : LeafPath) (t : Arena) : Attempt PathContext := do
  let first ← entry t.nodes p.start
  let upward ← p.upward.mapM (labelAt t)
  let top ← labelAt t p.top
  let downward ← p.downward.mapM (labelAt t)
  let last ← entry t.nodes p.finish
  pure
    { startToken := first.tokenText
      shape := { upward, top, downward }
      finishToken := last.tokenText }

end LeafPath

end PathCorpus
