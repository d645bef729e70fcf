import PathCorpus.Gzip.Fault
import PathCorpus.SExpr.Parse

/-!
# Samples

A sample is a labelled tree. In a file it stands on one line: the label, a tab, and the tree as an
S-expression. A line that gives no sample gives a fault, which knows its line and, as far as reading
got, the label.
-/

namespace PathCorpus

/-- A labelled tree. -/
structure Sample where
  label : String
  tree : Arena
  deriving DecidableEq, Repr

/-- Why the characters of a line cannot be had, as far as its bytes decide it. -/
inductive ReadFault where
  | invalidUtf8
  /-- The line should come from packed data that cannot be unpacked. -/
  | packing (fault : Gzip.Fault)
  deriving DecidableEq, Repr

/-- The wording of a fault in reading. -/
def ReadFault.message : ReadFault → String
  | .invalidUtf8 => "stream did not contain valid UTF-8"
  | .packing fault => fault.message

/-- Why a line gives no sample. -/
inductive LineFault where
  | unreadable (line : Nat) (fault : ReadFault)
  | missingTab (line : Nat)
  | badTree (line : Nat) (label : String) (refusal : SExpr.Refusal)
  deriving DecidableEq, Repr

namespace LineFault

/-- The label of the line, if reading got as far as that. -/
def label? : LineFault → Option String
  | .badTree _ label _ => some label
  | _ => none

/-- The number of the line. -/
def line : LineFault → Nat
  | .unreadable line _ => line
  | .missingTab line => line
  | .badTree line _ _ => line

/-- The wording of a fault. -/
def message : LineFault → String
  | .unreadable line fault => "line " ++ toString line ++ ": I/O error: " ++ fault.message
  | .missingTab line => "line " ++ toString line ++ ": expected `label<TAB>tree`"
  | .badTree line label refusal =>
    "line " ++ toString line ++ " (" ++ label ++ "): " ++ refusal.message

end LineFault

end PathCorpus
