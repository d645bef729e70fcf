import PathCorpus.Corpus.Basic
import PathCorpus.Lexicon.Rank
import PathCorpus.Limit

/-!
# The lines of a corpus

A sample is written on one line: its label, and after a space each of its contexts as three ids
with commas between them. Limits on ranks leave out the contexts with too rare a token or path; the
line itself is always there, if need be with the label alone.
-/

namespace PathCorpus

/-- The greatest ranks that are written. -/
structure Cutoff where
  tokens : Limit := .unlimited
  paths : Limit := .unlimited
  deriving DecidableEq, Repr

/-- Everything is written. -/
def Cutoff.unlimited : Cutoff := {}

/-- The rank of an id, in a table of ranks by place, is within the limit. -/
def rankWithin (ranks : Array Nat) (limit : Limit) : (id : Nat) → Bool
  | 0 => false
  | place + 1 => ranks[place]?.any (limit.Admits ·)

/-- A context on its line, with the space that sets it off. -/
def CodedContext.field (c : CodedContext) : String :=
  " " ++ toString c.start ++ "," ++ toString c.path ++ "," ++ toString c.finish

/-- The line of a sample, with the contexts that pass a test. -/
def CodedSample.line (s : CodedSample) (keep : CodedContext → Bool) : String :=
  s.label ++ String.join ((s.contexts.filter keep).map CodedContext.field)

namespace Corpus

/-- A line for each sample, in order. -/
def lines (c : Corpus) (cutoff : Cutoff) : List String :=
  let tokenRanks := c.tokens.ranks
  let pathRanks := c.paths.ranks
  c.samples.toList.map fun s => s.line fun x =>
    rankWithin tokenRanks cutoff.tokens x.start && rankWithin tokenRanks cutoff.tokens x.finish
      && rankWithin pathRanks cutoff.paths x.path

/-- The lines, each ended by a line feed. -/
def text (c : Corpus) (cutoff : Cutoff) : String :=
  String.join ((c.lines cutoff).map (· ++ "\n"))

end Corpus

end PathCorpus
