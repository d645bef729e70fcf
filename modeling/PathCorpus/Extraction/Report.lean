import PathCorpus.Arena.Defect
import PathCorpus.Sample.Basic
import PathCorpus.Text.Blank
import PathCorpus.Text.Quoted

/-!
# Reports

What became of each sample offered: it was stored, or it was skipped for a fault. A label starts a
line of the corpus and contexts follow it after spaces, so a label has to be one word.
-/

namespace PathCorpus

/-- One word: not empty, and without white space. -/
def isLabel (s : String) : Bool := !s.isEmpty && !s.toList.any Text.isBlank

/-- Why a sample is skipped. -/
inductive Fault where
  | badLabel (label : String)
  | refused (refusal : SExpr.Refusal)
  | noTree (defect : Defect)
  /-- The sample was lost while it was read. -/
  | unread (fault : LineFault)
  deriving DecidableEq, Repr

/-- The wording of a fault. -/
def Fault.message : Fault → String
  | .badLabel label =>
    "invalid label " ++ Text.quoted label ++ ": must be non-empty without whitespace"
  | .refused refusal => refusal.message
  | .noTree defect => "malformed tree: " ++ defect.message
  | .unread fault => fault.message

/-- A sample that was skipped: its place among all samples offered, counting from zero, its label
if it had one, and why. -/
structure Skipped where
  index : Nat
  label? : Option String
  fault : Fault
  deriving DecidableEq, Repr

/-- The wording of the reason. -/
def Skipped.reason (s : Skipped) : String := s.fault.message

/-- What became of the samples offered. -/
structure Report where
  /-- The number of samples stored. -/
  processed : Nat := 0
  /-- The number of those without contexts. -/
  empty : Nat := 0
  skipped : Array Skipped := #[]
  deriving DecidableEq, Repr

end PathCorpus
