import PathCorpus.Gzip.PrefixCode.Basic

/-!
# Shortest codes

The lengths of the words for which a text with given numbers of symbols becomes shortest. Symbols
that occur are the leaves of a tree: the two lightest trees are joined until one is left, and the
length of a word is the depth of its leaf. Of trees of one weight the lower comes first. Which of
several shortest codes arises is settled by the order in which a binary heap gives the trees out.

Where a leaf lies deeper than words may be long, leaves are moved: as often as needed, the deepest
leaf above the limit goes down one level and takes a leaf at the limit as its sibling.
-/

namespace PathCorpus.Gzip.CodeLengths

/-! ## §1: Trees -/

/-- A tree as far as joining needs to know it. -/
structure Bundle where
  weight : Nat
  depth : Nat
  deriving DecidableEq, Repr

/-- The first of the two may be taken before the second. -/
def Bundle.precedes (a b : Bundle) : Bool :=
  a.weight < b.weight || (a.weight == b.weight && a.depth ≤ b.depth)

/-- The tree of two trees. -/
def Bundle.join (a b : Bundle) : Bundle := ⟨a.weight + b.weight, max a.depth b.depth + 1⟩

/-! ## §2: The heap -/

/-- Trees by number, and a binary heap of the numbers of those that are not joined yet. -/
structure Grove where
  bundles : Array Bundle
  heap : Array Nat
  /-- Numbers of the trees that are joined already, the latest first. -/
  joined : List Nat
  /-- The number of the tree that a tree was joined into. -/
  parents : Array Nat
  deriving Repr

namespace Grove

/-- The first of the two trees may be taken before the second. -/
def precedes (g : Grove) (a b : Nat) : Bool :=
  match g.bundles[a]?, g.bundles[b]? with
  | some x, some y => x.precedes y
  | _, _ => false

/-- The place of a child below a place of the heap, the first to be taken of the two. -/
def childOf (g : Grove) (k : Nat) : Nat :=
  let j := 2 * k + 1
  if j + 1 < g.heap.size && g.precedes (g.heap.getD (j + 1) 0) (g.heap.getD j 0) then j + 1 else j

theorem lt_childOf (g : Grove) (k : Nat) : k < g.childOf k := by
  unfold childOf
  dsimp only
  split <;> omega

/-- The heap with a tree put at a place, or below it as far as trees there precede it. -/
def sink (g : Grove) (v k : Nat) : Grove :=
  let j := g.childOf k
  if _h : j < g.heap.size then
    let w := g.heap.getD j 0
    if g.precedes v w then { g with heap := g.heap.setIfInBounds k v }
    else sink { g with heap := g.heap.setIfInBounds k w } v j
  else { g with heap := g.heap.setIfInBounds k v }
termination_by g.heap.size - k
decreasing_by
  have := g.lt_childOf k
  simp only [Array.size_setIfInBounds]
  omega

/-- The heap of the leaves, put in order from the last place that has a child up to the first. -/
def ofLeaves (bundles : Array Bundle) (leaves : Array Nat) : Grove :=
  (List.range (leaves.size / 2)).reverse.foldl (fun g k => g.sink (g.heap.getD k 0) k)
    { bundles, heap := leaves, joined := [], parents := .replicate bundles.size 0 }

/-- The heap without its first tree, and that tree. -/
def removeFirst (g : Grove) : Grove × Nat :=
  let last := g.heap.back?.getD 0
  let rest := { g with heap := g.heap.pop }
  (if rest.heap.isEmpty then rest else rest.sink last 0, g.heap.getD 0 0)

/-- The two first trees joined into one. -/
def joinFirst (g : Grove) : Grove :=
  let (rest, a) := g.removeFirst
  let b := rest.heap.getD 0 0
  let c := g.bundles.size
  let bundle := (g.bundles.getD a ⟨0, 0⟩).join (g.bundles.getD b ⟨0, 0⟩)
  let grown : Grove :=
    { bundles := g.bundles.push bundle
      heap := rest.heap
      joined := b :: a :: g.joined
      parents := ((g.parents.push 0).setIfInBounds a c).setIfInBounds b c }
  grown.sink c 0

/-- The two first trees joined, so many times. -/
def joinAll : Nat → Grove → Grove
  | 0, g => g
  | n + 1, g => joinAll n g.joinFirst

end Grove

/-! ## §3: Lengths -/

/-- The symbols that get words: the given ones, and others so that there are two at least. -/
def withSpares : List Nat → List Nat
  | [] => [0, 1]
  | [s] => [s, if s < 2 then s + 1 else 0]
  | leaves => leaves

/-- The numbers of leaves by depth after leaves have been moved for the trees that lay deeper than
the limit. Each move makes room for two of them. -/
def moveLeaves (limit : Nat) : (excess : Nat) → Array Nat → Array Nat
  | 0, counts => counts
  | excess + 1, counts =>
    let d := ((List.range limit).reverse.find? fun d => counts.getD d 0 ≠ 0).getD 0
    let counts := counts.modify d (· - 1)
    let counts := counts.modify (d + 1) (· + 2)
    moveLeaves limit (excess - 1) (counts.modify limit (· - 1))

/-- The depths of the trees by number, at most the limit, and how many trees lie deeper. -/
def depthsWithin (limit : Nat) (g : Grove) : Array Nat × Nat :=
  g.joined.foldl
    (fun (depths, excess) n =>
      let d := depths.getD (g.parents.getD n 0) 0 + 1
      (depths.setIfInBounds n (min d limit), if limit < d then excess + 1 else excess))
    (.replicate g.bundles.size 0, 0)

/-- The lengths of the words of a shortest code whose words are not longer than the limit. The
weights say how often each symbol occurs. -/
def shortest (limit : Nat) (weights : Array Nat) : CodeLengths :=
  let used := (List.range weights.size).filter fun s => weights.getD s 0 ≠ 0
  let leaves := withSpares used
  let bundles := weights.map fun w => ⟨max w 1, 0⟩
  let grove := (Grove.ofLeaves bundles leaves.toArray).joinAll (leaves.length - 1)
  let (depths, excess) := depthsWithin limit grove
  let inOrder := grove.joined.reverse.filter (· < weights.size)
  let lengths : Array Nat :=
    if excess = 0 then inOrder.foldl (fun l s => l.setIfInBounds s (depths.getD s 0))
      (.replicate weights.size 0)
    else
      let counts := inOrder.foldl (fun c s => c.modify (depths.getD s 0) (· + 1))
        (.replicate (limit + 1) 0)
      let moved := moveLeaves limit excess counts
      let descending := (List.range (limit + 1)).reverse.flatMap fun d =>
        List.replicate (moved.getD d 0) d
      (inOrder.zip descending).foldl (fun l (s, d) => l.setIfInBounds s d)
        (.replicate weights.size 0)
  lengths.toList

end PathCorpus.Gzip.CodeLengths
