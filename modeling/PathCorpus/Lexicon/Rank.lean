import PathCorpus.Lexicon.Basic

/-!
# Ranks

The *rank* of an id is its place in the order of frequency, counting from 1: texts observed more
often come first, and among equally frequent ones the earlier id. Ranks change as the counts do.

The order comes from a stable sort of the ids by count alone; stability is what settles ties.
-/

namespace PathCorpus.Lexicon

/-- The count at a place, zero where there is none. -/
def countAt (x : Lexicon) (place : Nat) : Nat := (x.entries[place]?.map (·.count)).getD 0

/-- The places from the most frequent text to the least frequent. -/
def byFrequency (x : Lexicon) : List Nat :=
  (List.range x.size).mergeSort fun i j => decide (x.countAt j ≤ x.countAt i)

/-- The ranks by place. -/
def ranks (x : Lexicon) : Array Nat :=
  x.byFrequency.zipIdx.foldl (fun ranks (place, i) => ranks.setIfInBounds place (i + 1))
    (.replicate x.size 0)

/-- The rank of an id. -/
def rankOf? (x : Lexicon) : (id : Nat) → Option Nat
  | 0 => none
  | place + 1 => x.ranks[place]?

end PathCorpus.Lexicon
