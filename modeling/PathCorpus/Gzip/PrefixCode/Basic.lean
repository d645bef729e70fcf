import PathCorpus.Gzip.Bits

/-!
# Prefix codes

A code gives symbols, which are numbers from 0 on, words of bits, none of which begins another.
Such a code is known by the lengths of its words alone: the words of one length are consecutive
numbers in the order of their symbols, and a shorter word comes before a longer one. Words are
numbers with their highest bit first.
-/

namespace PathCorpus.Gzip

/-! ## §1: Words -/

/-- The lengths of the words of a code by symbol, 0 for a symbol that has no word. -/
abbrev CodeLengths := List Nat

namespace CodeLengths

/-- The longest word that a code may have. -/
def longest : Nat := 15

/-- The first word of every length, as a number. -/
def firstWords (lengths : CodeLengths) : Array Nat :=
  (List.range longest).foldl
    (fun first l => first.push (2 * (first.getD l 0 + if l = 0 then 0 else lengths.count l))) #[0]

/-- The words by symbol, empty for a symbol that has none. -/
def words (lengths : CodeLengths) : Array Bits :=
  (lengths.foldl
    (fun (next, words) l =>
      if l = 0 then (next, words.push [])
      else (next.modify l (· + 1), words.push (Bits.ofNat l (next.getD l 0)).reverse))
    (lengths.firstWords, #[])).2

end CodeLengths

/-! ## §2: Readers -/

/-- What the next bits can be: a symbol is reached when its word has been read. -/
inductive CodeReader where
  /-- No word goes this way. -/
  | nowhere
  | symbol (s : Nat)
  | fork (zero one : CodeReader)
  deriving DecidableEq, Repr

namespace CodeReader

/-- The reader that knows one more word, unless that word begins another or another begins it. -/
def insert? : CodeReader → Bits → Nat → Option CodeReader
  | .nowhere, [], s => some (.symbol s)
  | .nowhere, b :: word, s =>
    (insert? .nowhere word s).map fun r => if b then .fork .nowhere r else .fork r .nowhere
  | .symbol _, _, _ => none
  | .fork _ _, [], _ => none
  | .fork zero one, b :: word, s =>
    if b then (insert? one word s).map (.fork zero ·) else (insert? zero word s).map (.fork · one)

/-- The symbol of the first word. -/
def read : CodeReader → Reading Nat
  | .nowhere, _ => .error .corruptData
  | .symbol s, bits => .ok (s, bits)
  | .fork _ _, [] => .error .unexpectedEnd
  | .fork zero one, b :: bits => if b then one.read bits else zero.read bits

/-- The reader of a code, unless it has more words than there is room for. -/
def ofLengths? (lengths : CodeLengths) : Option CodeReader :=
  lengths.words.toList.zipIdx.foldlM
    (fun reader (word, s) => if word = [] then some reader else reader.insert? word s) .nowhere

end CodeReader

end PathCorpus.Gzip
