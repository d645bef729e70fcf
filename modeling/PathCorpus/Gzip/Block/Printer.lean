import PathCorpus.Gzip.Block.Basic
import PathCorpus.Gzip.Item.Repeats
import PathCorpus.Gzip.PrefixCode.Shortest

/-!
# Writing blocks

A text is cut into items and these into blocks of a bounded number of items. Each block is written
in the way that takes the fewest bytes. Of ways that take equally many, fixed codes go before codes
of its own, and plain bytes before both.
-/

namespace PathCorpus.Gzip

/-! ## §1: Symbols -/

/-- A symbol of one of the two codes, with the bits after its word. -/
inductive WrittenSymbol where
  | main (s : Nat) (more : Bits)
  | distance (s : Nat) (more : Bits)
  deriving DecidableEq, Repr

namespace WrittenSymbol

/-- The number of the band of a number, and the bits of its place there. -/
def inBand (bands : Array Band) (n : Nat) : Nat × Bits :=
  match Band.find? bands n with
  | some (i, band) => (i, Bits.ofNat band.width (n - band.start))
  | none => (0, [])

/-- The symbols of an item. -/
def ofItem : Item → List WrittenSymbol
  | .byte b => [.main b.toNat []]
  | .copy length back =>
    let (l, lengthBits) := inBand Band.lengths length
    let (d, distanceBits) := inBand Band.distances back
    [.main (CodePair.endOfBlock + 1 + l) lengthBits, .distance d distanceBits]

/-- The symbols of a block. -/
def ofItems (items : List Item) : List WrittenSymbol :=
  items.flatMap ofItem ++ [.main CodePair.endOfBlock []]

end WrittenSymbol

/-- How often each symbol below a bound occurs. -/
def weights (size : Nat) (symbols : List Nat) : Array Nat :=
  symbols.foldl (fun w s => w.modify s (· + 1)) (.replicate size 0)

/-! ## §2: Ways to write a block -/

namespace CodePair

/-- The bits of symbols. -/
def write (codes : CodePair) (symbols : List WrittenSymbol) : Bits :=
  let main := codes.main.words
  let distances := codes.distances.words
  symbols.flatMap fun
    | .main s more => main.getD s [] ++ more
    | .distance s more => distances.getD s [] ++ more

/-- The pair of codes for which symbols become shortest. -/
def shortest (symbols : List WrittenSymbol) : CodePair where
  main := CodeLengths.shortest CodeLengths.longest <|
    weights mainSize (symbols.filterMap fun | .main s _ => some s | .distance .. => none)
  distances := CodeLengths.shortest CodeLengths.longest <|
    weights Band.distances.size (symbols.filterMap fun | .distance s _ => some s | .main .. => none)

/-- Lengths without the zeros at their end, but not fewer than a number. -/
def trim (least : Nat) (lengths : List Nat) : List Nat :=
  let kept := (lengths.reverse.dropWhile (· = 0)).reverse
  kept ++ .replicate (least - kept.length) 0

/-- The description of a pair of codes. -/
def describe (codes : CodePair) : Bits :=
  let main := trim (endOfBlock + 1) codes.main
  let distances := trim 1 codes.distances
  let steps := (LengthStep.ofLengths main ++ LengthStep.ofLengths distances).map LengthStep.written
  let lengths := CodeLengths.shortest LengthStep.longestWord <|
    weights LengthStep.codeSize (steps.map fun (s, _, _) => s)
  let inOrder := trim 4 (LengthStep.order.map fun s => lengths.getD s 0)
  let words := lengths.words
  Bits.ofNat 5 (main.length - (endOfBlock + 1)) ++ Bits.ofNat 5 (distances.length - 1)
    ++ Bits.ofNat 4 (inOrder.length - 4) ++ inOrder.flatMap (Bits.ofNat 3)
    ++ steps.flatMap fun (s, width, n) => words.getD s [] ++ Bits.ofNat width n

end CodePair

/-! ## §3: Blocks -/

/-- The first bits of a block. -/
def blockHead (isLast : Bool) (kind : BlockKind) : Bits := isLast :: Bits.ofNat 2 kind.number

/-- A block of plain bytes, after so many bits. -/
def plainBlock (written : Nat) (isLast : Bool) (text : List UInt8) : Bits :=
  blockHead isLast .plain ++ Bits.fillUp (written + 3) ++ Bits.ofNat 16 text.length
    ++ Bits.ofNat 16 (65535 - text.length) ++ Bits.ofBytes text

/-- How many bytes bits take. -/
def bytesFor (bits : Bits) : Nat := (bits.length + 7) / 8

/-- The bits of a block, after so many bits. -/
def writeBlock (written : Nat) (isLast : Bool) (items : List Item) (text : List UInt8) : Bits :=
  let symbols := WrittenSymbol.ofItems items
  let codes := CodePair.shortest symbols
  let inOwn := blockHead isLast .ownCodes ++ codes.describe ++ codes.write symbols
  let inFixed := blockHead isLast .fixedCodes ++ CodePair.fixed.write symbols
  let coded := if bytesFor inFixed ≤ bytesFor inOwn then inFixed else inOwn
  if text.length + 4 ≤ bytesFor coded then plainBlock written isLast text else coded

/-- The greatest number of items in a block. -/
def blockSize : Nat := 16383

/-- The bits of items and of the text they stand for, after so many bits. A block that is full is
not the last one. -/
def writeBlocks (written : Nat) (items : List Item) (text : List UInt8) : Bits :=
  if _h : blockSize ≤ items.length then
    let block := items.take blockSize
    let size := block.foldl (fun size item => size + item.span) 0
    let bits := writeBlock written false block (text.take size)
    bits ++ writeBlocks (written + bits.length) (items.drop blockSize) (text.drop size)
  else writeBlock written true items text
termination_by items.length
decreasing_by
  have : 0 < blockSize := by decide
  rw [List.length_drop]
  omega

/-- The packed form of a text. -/
def deflate (text : List UInt8) : List UInt8 :=
  Bits.toBytes (writeBlocks 0 (itemsOf text.toArray).toList text)

end PathCorpus.Gzip
