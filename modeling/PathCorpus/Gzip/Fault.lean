/-!
# Faults of packed data

Why packed bytes cannot be unpacked, and how each cause is worded.
-/

namespace PathCorpus.Gzip

/-- Why packed bytes cannot be unpacked. -/
inductive Fault where
  /-- The bytes end inside a member. -/
  | unexpectedEnd
  /-- A member does not start as one has to. -/
  | invalidHeader
  /-- A name or a comment in a header goes beyond the longest one that is read. -/
  | fieldTooLong
  /-- The packed data do not describe a text. -/
  | corruptData
  /-- A checksum, or the length of the text, is not what is noted beside it. -/
  | wrongChecksum
  deriving DecidableEq, Repr

/-- The wording of a fault. -/
def Fault.message : Fault → String
  | .unexpectedEnd => "unexpected end of file"
  | .invalidHeader => "invalid gzip header"
  | .fieldTooLong => "gzip header field too long"
  | .corruptData => "corrupt deflate stream"
  | .wrongChecksum => "corrupt gzip stream does not have a matching checksum"

end PathCorpus.Gzip
