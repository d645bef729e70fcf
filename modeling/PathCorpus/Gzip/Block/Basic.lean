import PathCorpus.Gzip.Item.Basic
import PathCorpus.Gzip.PrefixCode.Basic

/-!
# Blocks

Items are written in blocks, and each block in one of three ways: as plain bytes, with a fixed pair
of codes, or with a pair of codes of its own, which it then describes first. The first code of a
pair is for bytes, the end of the block and the bands of lengths, the second for the bands of
distances.

The description of a pair gives the lengths of its words, with a code of its own for lengths that
are given alone, that repeat the one before, or that are zeros in a row.
-/

namespace PathCorpus.Gzip

/-! ## §1: Pairs of codes -/

/-- The ways in which a block is written, by their numbers. -/
inductive BlockKind where
  | plain
  | fixedCodes
  | ownCodes
  deriving DecidableEq, Repr

/-- The number of a way to write a block. -/
def BlockKind.number : BlockKind → Nat
  | .plain => 0
  | .fixedCodes => 1
  | .ownCodes => 2

/-- The lengths of the words of a pair of codes. -/
structure CodePair where
  main : CodeLengths
  distances : CodeLengths
  deriving DecidableEq, Repr

namespace CodePair

/-- The symbol for the end of a block. The bands of lengths come right after it. -/
def endOfBlock : Nat := 256

/-- How many symbols the first code may have. -/
def mainSize : Nat := endOfBlock + 1 + Band.lengths.size

/-- The pair of codes that needs no description. It has words for more symbols than are used. -/
def fixed : CodePair where
  main := .replicate 144 8 ++ .replicate 112 9 ++ .replicate 24 7 ++ .replicate 8 8
  distances := .replicate 32 5

end CodePair

/-! ## §2: Lengths of words in a row -/

/-- A step in the description of lengths. -/
inductive LengthStep where
  | one (length : Nat)
  /-- The last length again, 3 to 6 times. -/
  | again (times : Nat)
  /-- Zeros in a row, 3 to 138 of them. -/
  | zeros (times : Nat)
  deriving DecidableEq, Repr

namespace LengthStep

/-- How many symbols the code for steps may have. -/
def codeSize : Nat := 19

/-- The longest word of the code for steps. -/
def longestWord : Nat := 7

/-- The order in which the lengths of the words for steps are written. The rare ones come last, so
that they can be left out. -/
def order : List Nat := [16, 17, 18, 0, 8, 7, 9, 6, 10, 5, 11, 4, 12, 3, 13, 2, 14, 1, 15]

/-- The symbol of a step, and how many bits tell the rest, and the number they stand for. -/
def written : LengthStep → Nat × Nat × Nat
  | .one l => (l, 0, 0)
  | .again n => (16, 2, n - 3)
  | .zeros n => if n ≤ 10 then (17, 3, n - 3) else (18, 7, n - 11)

/-- The lengths after a step that follows on some lengths, if there is one to repeat. -/
def append? (lengths : CodeLengths) : LengthStep → Option CodeLengths
  | .one l => some (lengths ++ [l])
  | .again n => lengths.getLast?.map fun l => lengths ++ .replicate n l
  | .zeros n => some (lengths ++ .replicate n 0)

/-- The steps for zeros in a row. -/
def ofZeros (n : Nat) : List LengthStep :=
  if n < 3 then .replicate n (.one 0) else .zeros (min n 138) :: ofZeros (n - 138)
termination_by n

/-- The steps for a length that was the last one too and follows so many times. -/
def ofMore (l n : Nat) : List LengthStep :=
  if n < 3 then .replicate n (.one l) else .again (min n 6) :: ofMore l (n - 6)
termination_by n

/-- The steps for a length that stands so many times in a row. -/
def ofRun (l n : Nat) : List LengthStep :=
  if l = 0 then ofZeros n
  else if n < 4 then .replicate n (.one l)
  else .one l :: .again (min (n - 1) 6) :: ofMore l (n - 7)

/-- The steps for lengths. -/
def ofLengths (lengths : CodeLengths) : List LengthStep :=
  (lengths.splitBy (· == ·)).flatMap fun run => ofRun (run.headD 0) run.length

end LengthStep

end PathCorpus.Gzip
