import PathCorpus.Gzip.Fault

/-!
# Bits

Packed data are a sequence of bits. They fill bytes from the lowest bit up, and the last byte is
filled up with zeros. Numbers are written with their lowest bit first.
-/

namespace PathCorpus.Gzip

/-- A sequence of bits. -/
abbrev Bits := List Bool

namespace Bits

/-! ## §1: Numbers -/

/-- The lowest bits of a number. -/
def ofNat : (width n : Nat) → Bits
  | 0, _ => []
  | width + 1, n => (n % 2 == 1) :: ofNat width (n / 2)

/-- The number that has these bits and no others. -/
def toNat : Bits → Nat
  | [] => 0
  | b :: bs => b.toNat + 2 * toNat bs

/-! ## §2: Bytes -/

/-- The bits of bytes. -/
def ofBytes (bytes : List UInt8) : Bits := bytes.flatMap fun b => ofNat 8 b.toNat

/-- The bytes that the bits fill. -/
def toBytes : Bits → List UInt8
  | b₀ :: b₁ :: b₂ :: b₃ :: b₄ :: b₅ :: b₆ :: b₇ :: rest =>
    UInt8.ofNat (toNat [b₀, b₁, b₂, b₃, b₄, b₅, b₆, b₇]) :: toBytes rest
  | [] => []
  | bits => [UInt8.ofNat (toNat bits)]

/-- The bits up to the end of a byte, when so many are written already. -/
def fillUp (written : Nat) : Bits := .replicate ((8 - written % 8) % 8) false

end Bits

/-! ## §3: Reading -/

/-- What reads something from the front of a sequence of bits. -/
abbrev Reading := StateT Bits (Except Fault)

/-- The number that the first bits stand for. -/
def readNumber : (width : Nat) → Reading Nat
  | 0 => fun bits => .ok (0, bits)
  | width + 1 => fun
    | [] => .error .unexpectedEnd
    | b :: bits =>
      match readNumber width bits with
      | .ok (n, rest) => .ok (b.toNat + 2 * n, rest)
      | .error fault => .error fault

end PathCorpus.Gzip
