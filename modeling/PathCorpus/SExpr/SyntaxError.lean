import PathCorpus.SExpr.Reading

/-!
# Where a text stops being an S-expression

A syntax error is a place in a text and the parts that could have stood there. It is shown as an
excerpt: the line of the place, a caret under the character, and the parts that were expected.
Carriage returns are left out of the line shown, and tabs are kept in the line below it so that the
caret stands under its character.
-/

namespace PathCorpus.SExpr

/-- A place in a text, as the text up to it and the text from it on, with the parts expected. -/
structure SyntaxError where
  before : List Char
  after : List Char
  expected : List Part
  deriving DecidableEq, Repr

namespace Part

/-- The name of a part in a message. -/
def name : Part → String
  | .endOfText => "EOI"
  | .node => "node"
  | .label => "type_label"
  | .token => "token"

/-- The parts in the order in which a message names them. -/
def all : List Part := [.endOfText, .node, .label, .token]

end Part

namespace SyntaxError

/-! ## §1: The furthest misses -/

/-- The misses at the place of the last one. Misses come in the order of the text, so these are
the furthest. -/
def furthest (misses : List Miss) : List Miss :=
  match misses.getLast? with
  | none => []
  | some last =>
    (misses.reverse.takeWhile fun m => m.rest.length = last.rest.length).reverse

/-- The error that the misses of a reading amount to. -/
def ofMisses (text : List Char) (misses : List Miss) : SyntaxError :=
  -- every reading that fails has a miss, so the default is never used
  let after := ((furthest misses).head?.map (·.rest)).getD text
  { before := text.take (text.length - after.length)
    after
    expected := Part.all.filter fun p => (furthest misses).any (·.part = p) }

/-! ## §2: The excerpt -/

/-- The line of the place, up to the place. -/
def lineBefore (e : SyntaxError) : List Char :=
  (e.before.reverse.takeWhile (· ≠ '\n')).reverse

/-- The line of the place, from the place on. -/
def lineAfter (e : SyntaxError) : List Char := e.after.takeWhile (· ≠ '\n')

/-- The number of the line, from one. -/
def line (e : SyntaxError) : Nat := e.before.count '\n' + 1

/-- The number of the character in its line, from one. -/
def column (e : SyntaxError) : Nat := e.lineBefore.length + 1

/-- The line as it is shown, without carriage returns. -/
def shownLine (e : SyntaxError) : List Char := (e.lineBefore ++ e.lineAfter).filter (· ≠ '\r')

/-- The caret, under the place as far as the line shown reaches. -/
def underline (e : SyntaxError) : List Char :=
  (e.shownLine.take e.lineBefore.length).map (fun c => if c = '\t' then '\t' else ' ')
    ++ "^---".toList

/-- The parts expected, as a message names them. -/
def expectation (e : SyntaxError) : String :=
  "expected " ++ " or ".intercalate (e.expected.map Part.name)

/-- The place, the line with a caret below it, and the parts expected. The left margin is as wide
as the line number. -/
def excerpt (e : SyntaxError) : String :=
  let number := toString e.line
  let margin := String.ofList (List.replicate number.length ' ')
  "\n".intercalate [
    margin ++ "--> " ++ number ++ ":" ++ toString e.column,
    margin ++ " |",
    number ++ " | " ++ String.ofList e.shownLine,
    margin ++ " | " ++ String.ofList e.underline,
    margin ++ " |",
    margin ++ " = " ++ e.expectation]

end SyntaxError

end PathCorpus.SExpr
