import PathCorpus.Sample.Source
import PathCorpus.Text.Blank

/-!
# Reading samples

Lines are numbered from 1. Blank lines and lines that start with `#` give nothing but are counted;
every other line gives one sample or one fault. Carriage returns at the end of a line do not belong
to it, and the first tab of a line ends its label.

A reader is a value that gives one result at a time. It goes on to the next line
after a fault as after a sample.
-/

namespace PathCorpus

/-! ## §1: One line -/

/-- The text up to the first tab, and the text after it. -/
def splitAtTab? (line : List Char) : Option (List Char × List Char) :=
  match line.dropWhile (· ≠ '\t') with
  | [] => none
  | _ :: rest => some (line.takeWhile (· ≠ '\t'), rest)

/-- The sample of a line that is neither blank nor a comment. -/
def Sample.ofLine (number : Nat) (line : List Char) : Except LineFault Sample :=
  match splitAtTab? line with
  | none => .error (.missingTab number)
  | some (label, text) =>
    let label := String.ofList label
    match SExpr.parse text with
    | .ok tree => .ok { label, tree := tree.inPreOrder }
    | .error refusal => .error (.badTree number label refusal)

/-- A line that gives nothing. -/
def isIgnored (line : List Char) : Bool := Text.isBlankText line || line.head? = some '#'

/-- What a line gives. -/
def RawLine.read? (number : Nat) : RawLine → Option (Except LineFault Sample)
  | .error fault => some (.error (.unreadable number fault))
  | .ok line =>
    let line := Text.dropReturns line
    if isIgnored line then none else some (Sample.ofLine number line)

/-! ## §2: Readers -/

/-- A reader under way: the lines that are still to come, and how many lines it has asked for. -/
structure SampleReader where
  pending : List RawLine
  asked : Nat := 0

namespace SampleReader

/-- Asks for lines until one of them gives something: what it gives, and the reader after it. -/
def nextFrom (asked : Nat) :
    (pending : List RawLine) → Option (Except LineFault Sample) × SampleReader
  -- that there is no line is found out by asking for it
  | [] => (none, { pending := [], asked := asked + 1 })
  | line :: pending =>
    match line.read? (asked + 1) with
    | some result => (some result, { pending, asked := asked + 1 })
    | none => nextFrom (asked + 1) pending

/-- The next sample or fault, if there is one, and the reader after it. -/
def next (r : SampleReader) : Option (Except LineFault Sample) × SampleReader :=
  nextFrom r.asked r.pending

/-- Appends what the next calls give, at most `n` of them. -/
def takeInto (results : Array (Except LineFault Sample)) :
    (n : Nat) → SampleReader → Array (Except LineFault Sample)
  | 0, _ => results
  | n + 1, r =>
    match r.next with
    | (some result, r) => takeInto (results.push result) n r
    | (none, _) => results

/-- What the next calls give, at most `n` of them. -/
def take (n : Nat) (r : SampleReader) : List (Except LineFault Sample) := (takeInto #[] n r).toList

/-- All that the reader gives. A line gives one result at most. -/
def toList (r : SampleReader) : List (Except LineFault Sample) := r.take r.pending.length

end SampleReader

namespace Sample

/-- The samples of a text. -/
def allInText (s : String) : List (Except LineFault Sample) :=
  SampleReader.toList { pending := RawLine.ofText s }

/-- The samples of a byte sequence. -/
def allInBytes (bytes : List UInt8) : List (Except LineFault Sample) :=
  SampleReader.toList { pending := RawLine.ofBytes bytes }

/-- The samples of a file. -/
def allInFile (name : String) (bytes : List UInt8) : List (Except LineFault Sample) :=
  SampleReader.toList { pending := RawLine.ofFile name bytes }

end Sample

end PathCorpus
