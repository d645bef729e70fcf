import PathCorpus.Gzip.Block.Printer
import PathCorpus.Gzip.Block.Reader
import PathCorpus.Gzip.Checksum

/-!
# Members

A packed file is a sequence of members, each with a header, the packed text, and the checksum and
the length of the text. What the members hold is one text. A header may have an extra field, a name,
a comment and a checksum of its own, which are read over.

A text that does not agree with its checksum is given all the same, but nothing after it is. Of a
member whose data describe no text, nothing is given.
-/

namespace PathCorpus.Gzip

/-! ## §1: Headers -/

namespace Header

/-- Two bytes that every member starts with, and the number of the way of packing. -/
def magic : List UInt8 := [0x1f, 0x8b, 8]

/-- The length of the part that every header has. -/
def size : Nat := 10

/-- A header with nothing in it: no flags, no time, no remarks on the packing, and a system that is
not known. -/
def plain : List UInt8 := magic ++ [0, 0, 0, 0, 0, 0, 255]

/-- The parts of a header that a flag says are there. -/
inductive Field where
  | checksum
  | extra
  | name
  | comment
  deriving DecidableEq, Repr

/-- The bit of the flags for a field. -/
def Field.bit : Field → Nat
  | .checksum => 1
  | .extra => 2
  | .name => 3
  | .comment => 4

/-- The flags name a field. -/
def has (flags : UInt8) (field : Field) : Bool := flags.toNat.testBit field.bit

/-- The greatest length of a name or a comment. -/
def longestField : Nat := 65535

/-- The bytes after an extra field, which starts with its length. -/
def dropExtra : List UInt8 → Except Fault (List UInt8)
  | low :: high :: rest =>
    let n := low.toNat + 256 * high.toNat
    if rest.length < n then .error .unexpectedEnd else .ok (rest.drop n)
  | _ => .error .unexpectedEnd

/-- The bytes after a field that ends in a zero. -/
def dropText (bytes : List UInt8) : Except Fault (List UInt8) :=
  if longestField < (bytes.takeWhile (· ≠ 0)).length then .error .fieldTooLong
  else
    match bytes.dropWhile (· ≠ 0) with
    | [] => .error .unexpectedEnd
    | _ :: rest => .ok rest

/-- The bytes after the checksum of a header: the low half of the checksum of what is before it. -/
def dropChecksum (header : List UInt8) : List UInt8 → Except Fault (List UInt8)
  | low :: high :: rest =>
    if low.toNat + 256 * high.toNat = (checksum header).toNat % 65536 then .ok rest
    else .error .wrongChecksum
  | _ => .error .unexpectedEnd

/-- The bytes after a header. -/
def drop (bytes : List UInt8) : Except Fault (List UInt8) := do
  if bytes.length < size then throw .unexpectedEnd
  let flags := bytes.getD 3 0
  if bytes.take 3 ≠ magic ∨ 32 ≤ flags then throw .invalidHeader
  let rest := bytes.drop size
  let rest ← if has flags .extra then dropExtra rest else pure rest
  let rest ← if has flags .name then dropText rest else pure rest
  let rest ← if has flags .comment then dropText rest else pure rest
  if has flags .checksum then dropChecksum (bytes.take (bytes.length - rest.length)) rest
  else return rest

end Header

/-! ## §2: Packing -/

/-- A number of 32 bits, its lowest byte first. -/
def wordBytes (n : Nat) : List UInt8 := Bits.toBytes (Bits.ofNat 32 n)

/-- What is noted after a packed text. -/
def trailer (text : List UInt8) : List UInt8 :=
  wordBytes (checksum text).toNat ++ wordBytes text.length

/-- The member that holds a text. -/
def pack (text : List UInt8) : List UInt8 := Header.plain ++ deflate text ++ trailer text

/-! ## §3: Unpacking -/

/-- What packed bytes hold: a text, and why there is no more of it if something is at fault. -/
structure Contents where
  text : List UInt8
  fault? : Option Fault
  deriving DecidableEq, Repr

namespace Contents

/-- The contents after some text. -/
def after (text : List UInt8) (c : Contents) : Contents := { c with text := text ++ c.text }

end Contents

/-- The text of the first member, and the bytes after the member or the fault in it. -/
def unpackFirst (bytes : List UInt8) : List UInt8 × Except Fault (List UInt8) :=
  match Header.drop bytes with
  | .error fault => ([], .error fault)
  | .ok packed =>
    let unpacking := inflate (Bits.ofBytes packed)
    let text := unpacking.text.toList
    match unpacking.rest with
    | .error .corruptData => ([], .error .corruptData)
    | .error fault => (text, .error fault)
    | .ok bits =>
      let rest := packed.drop (packed.length - bits.length / 8)
      if rest.length < 8 then (text, .error .unexpectedEnd)
      else if rest.take 8 = trailer text then (text, .ok (rest.drop 8))
      else (text, .error .wrongChecksum)

/-- What the members hold, of which there are at most `n`. -/
def unpackMembers : (n : Nat) → List UInt8 → Contents
  | 0, _ => ⟨[], none⟩
  | n + 1, bytes =>
    match unpackFirst bytes with
    | (text, .error fault) => ⟨text, some fault⟩
    | (text, .ok []) => ⟨text, none⟩
    | (text, .ok rest) => (unpackMembers n rest).after text

/-- What packed bytes hold. There is one member at least, and a member has one byte at least. -/
def unpack (bytes : List UInt8) : Contents := unpackMembers (bytes.length + 1) bytes

end PathCorpus.Gzip
