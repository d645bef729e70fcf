/-!
# Items

A packed text is a sequence of items: single bytes, and copies of bytes that came before. A copy
may reach into itself, so a run of one byte is that byte and a copy of distance 1.

Lengths and distances are written in two parts: the number of a *band* and the place in the band.
Bands lie one after another, and the number of places in each is a power of two.
-/

namespace PathCorpus.Gzip

/-! ## §1: Items and texts -/

/-- A piece of a text. -/
inductive Item where
  | byte (b : UInt8)
  | copy (length distance : Nat)
  deriving DecidableEq, Repr

/-- The bytes of a text at a distance from its end, put at its end one by one. -/
def copyBack (distance : Nat) : (length : Nat) → Array UInt8 → Array UInt8
  | 0, text => text
  | length + 1, text =>
    copyBack distance length (text.push (text.getD (text.size - distance) 0))

namespace Item

/-- How many bytes an item stands for. -/
def span : Item → Nat
  | .byte _ => 1
  | .copy length _ => length

/-- The text with an item after it, if the text has what the item copies. -/
def append? (text : Array UInt8) : Item → Option (Array UInt8)
  | .byte b => some (text.push b)
  | .copy length distance =>
    if distance ≤ text.size then some (copyBack distance length text) else none

end Item

/-! ## §2: Bands -/

/-- A range of numbers: where it starts, and the number of bits of a place in it. -/
structure Band where
  start : Nat
  width : Nat
  deriving DecidableEq, Repr

namespace Band

/-- Bands of the given widths one after another. -/
def fromWidths : (start : Nat) → (widths : List Nat) → List Band
  | _, [] => []
  | start, width :: widths => ⟨start, width⟩ :: fromWidths (start + 2 ^ width) widths

/-- The bands of lengths. The greatest length has a band of its own. -/
def lengths : Array Band :=
  let widths := [0, 0, 0, 0, 0, 0, 0, 0, 1, 1, 1, 1, 2, 2, 2, 2, 3, 3, 3, 3, 4, 4, 4, 4, 5, 5, 5, 5]
  (fromWidths 3 widths ++ [Band.mk 258 0]).toArray

/-- The bands of distances. -/
def distances : Array Band :=
  (fromWidths 1 [0, 0, 0, 0, 1, 1, 2, 2, 3, 3, 4, 4, 5, 5, 6, 6, 7, 7, 8, 8, 9, 9, 10, 10, 11, 11,
    12, 12, 13, 13]).toArray

/-- The last band that starts at a number or before it, with its number. -/
def find? (bands : Array Band) (n : Nat) : Option (Nat × Band) :=
  (bands.toList.zipIdx.reverse.find? fun p => p.1.start ≤ n).map fun (band, i) => (i, band)

end Band

end PathCorpus.Gzip
