/-!
# Checksums

The cyclic redundancy check of 32 bits. The remainder starts with all bits set, takes in the bytes
one after another with the lowest bit first, and is given with every bit turned over.
-/

namespace PathCorpus.Gzip.Checksum

/-- The remainder moved on by one bit. -/
def shift (r : UInt32) : UInt32 :=
  if r &&& 1 = 1 then (r >>> 1) ^^^ 0xEDB88320 else r >>> 1

/-- The remainder moved on by one byte. -/
def take (r : UInt32) (b : UInt8) : UInt32 := Nat.repeat shift 8 (r ^^^ b.toUInt32)

/-- The remainder after bytes. -/
def after (r : UInt32) (bytes : List UInt8) : UInt32 := bytes.foldl take r

end PathCorpus.Gzip.Checksum

namespace PathCorpus.Gzip

/-- The checksum of bytes. -/
def checksum (bytes : List UInt8) : UInt32 := ~~~(Checksum.after 0xFFFFFFFF bytes)

end PathCorpus.Gzip
