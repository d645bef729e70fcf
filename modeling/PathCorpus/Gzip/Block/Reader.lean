import PathCorpus.Gzip.Block.Basic

/-!
# Reading blocks

Blocks are read until one says that it is the last. What has been read of a text before something
is at fault is kept.
-/

namespace PathCorpus.Gzip

/-! ## §1: Codes -/

/-- What reads the items of a block. -/
structure ItemReader where
  main : CodeReader
  distances : CodeReader
  deriving DecidableEq, Repr

/-- A fault in the data unless there is a value. -/
def orCorrupt {α : Type} : Option α → Reading α
  | some a => pure a
  | none => throw .corruptData

/-- The number that a symbol for a band and the bits after it stand for. -/
def readInBand (bands : Array Band) (i : Nat) : Reading Nat := do
  let band ← orCorrupt bands[i]?
  return band.start + (← readNumber band.width)

namespace ItemReader

/-- The reader for a pair of codes. -/
def ofCodes (codes : CodePair) : Reading ItemReader := do
  let main ← orCorrupt (CodeReader.ofLengths? codes.main)
  let distances ← orCorrupt (CodeReader.ofLengths? codes.distances)
  return { main, distances }

/-- The next item, or none at the end of the block. -/
def next (r : ItemReader) : Reading (Option Item) := do
  let s ← r.main.read
  if s < CodePair.endOfBlock then return some (.byte (UInt8.ofNat s))
  else if s = CodePair.endOfBlock then return none
  else
    let length ← readInBand Band.lengths (s - CodePair.endOfBlock - 1)
    let distance ← readInBand Band.distances (← r.distances.read)
    return some (.copy length distance)

end ItemReader

/-! ## §2: Descriptions of codes -/

/-- A step in the description of lengths. -/
def readStep (r : CodeReader) : Reading LengthStep := do
  match ← r.read with
  | 16 => return .again (3 + (← readNumber 2))
  | 17 => return .zeros (3 + (← readNumber 3))
  | 18 => return .zeros (11 + (← readNumber 7))
  | l => return .one l

/-- Lengths until there are so many, after those that are read already, in at most `n` steps. -/
def readLengths (r : CodeReader) (size : Nat) : (n : Nat) → CodeLengths → Reading CodeLengths
  | 0, _ => throw .corruptData
  | n + 1, lengths =>
    if lengths.length = size then return lengths
    else if size < lengths.length then throw .corruptData
    else do
      let lengths ← orCorrupt ((← readStep r).append? lengths)
      readLengths r size n lengths

/-- The pair of codes that a block describes. Lengths of the first code and of the second are in
one row. -/
def readCodes : Reading CodePair := do
  let mainSize := CodePair.endOfBlock + 1 + (← readNumber 5)
  let distancesSize := 1 + (← readNumber 5)
  let given := 4 + (← readNumber 4)
  let inOrder ← (LengthStep.order.take given).mapM fun s => return (s, ← readNumber 3)
  let stepLengths := (List.range LengthStep.codeSize).map fun s => (inOrder.lookup s).getD 0
  let reader ← orCorrupt (CodeReader.ofLengths? stepLengths)
  let size := mainSize + distancesSize
  let lengths ← readLengths reader size (size + 1) []
  return ⟨lengths.take mainSize, lengths.drop mainSize⟩

/-! ## §3: Blocks -/

/-- How far unpacking got: the text so far, and the bits after it or why there is no more. -/
structure Unpacking where
  text : Array UInt8
  rest : Except Fault Bits

namespace Unpacking

/-- Unpacking goes on with what a reader gives. -/
def andThen {α : Type} (u : Unpacking) (r : Reading α) (f : α → Unpacking → Unpacking) :
    Unpacking :=
  match u.rest with
  | .error _ => u
  | .ok bits =>
    match r bits with
    | .error fault => { u with rest := .error fault }
    | .ok (a, rest) => f a { u with rest := .ok rest }

/-- The items up to the end of the block, of which there are at most `n`. -/
def items (r : ItemReader) : (n : Nat) → Unpacking → Unpacking
  | 0, u => { u with rest := .error .corruptData }
  | n + 1, u => u.andThen r.next fun item? u =>
    match item? with
    | none => u
    | some item =>
      match item.append? u.text with
      | some text => items r n { u with text }
      | none => { u with rest := .error .corruptData }

/-- A block of plain bytes. It starts at a byte, and its length is noted twice. -/
def plain (u : Unpacking) : Unpacking :=
  let aligned : Reading Unit := fun bits => .ok ((), bits.drop (bits.length % 8))
  u.andThen (do aligned; return (← readNumber 16, ← readNumber 16)) fun (size, check) u =>
    if size + check ≠ 65535 then { u with rest := .error .corruptData }
    else
      size.repeat (fun u => u.andThen (readNumber 8) fun b u =>
        { u with text := u.text.push (UInt8.ofNat b) }) u

/-- The items of a block. A block has fewer items than bits. -/
def coded (codes : Reading CodePair) (u : Unpacking) : Unpacking :=
  u.andThen (do ItemReader.ofCodes (← codes)) fun r u =>
    match u.rest with
    | .error _ => u
    | .ok bits => items r (bits.length + 1) u

/-- All blocks, of which there are at most `n`. -/
def blocks : (n : Nat) → Unpacking → Unpacking
  | 0, u => { u with rest := .error .corruptData }
  | n + 1, u => u.andThen (do return (← readNumber 1, ← readNumber 2)) fun (isLast, kind) u =>
    let u := match kind with
      | 0 => u.plain
      | 1 => u.coded (pure .fixed)
      | 2 => u.coded readCodes
      | _ => { u with rest := .error .corruptData }
    if isLast = 1 then u else blocks n u

end Unpacking

/-- Unpacks the text at the front of the bits. A block takes one bit at least. -/
def inflate (bits : Bits) : Unpacking :=
  Unpacking.blocks (bits.length + 1) { text := #[], rest := .ok bits }

end PathCorpus.Gzip
