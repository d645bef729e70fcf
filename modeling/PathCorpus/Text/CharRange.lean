/-!
# Ranges of characters

A property of characters given as data: a list of closed ranges of code points.
-/

namespace PathCorpus.Text

/-- The code points from `first` to `last`, both included. -/
structure CharRange where
  first : Nat
  last : Nat
  deriving DecidableEq, Repr, Inhabited

namespace CharRange

/-- The range holds the character. -/
def Holds (r : CharRange) (c : Char) : Prop := r.first ≤ c.toNat ∧ c.toNat ≤ r.last

instance (r : CharRange) (c : Char) : Decidable (r.Holds c) :=
  inferInstanceAs (Decidable (_ ∧ _))

/-- Some range of the table holds the character. -/
def any (table : List CharRange) (c : Char) : Bool := table.any fun r => decide (r.Holds c)

/-- A table from pairs of end points. -/
def ofPairs (ends : List (Nat × Nat)) : List CharRange := ends.map fun e => ⟨e.1, e.2⟩

end CharRange

end PathCorpus.Text
