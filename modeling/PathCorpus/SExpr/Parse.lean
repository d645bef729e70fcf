import PathCorpus.Ast.Numbering
import PathCorpus.SExpr.Nesting
import PathCorpus.SExpr.SyntaxError

/-!
# From text to tree

A text is first measured: one whose parentheses nest deeper than `maxLevels` is refused for that,
whatever else is wrong with it. Only then is it read.
-/

namespace PathCorpus.SExpr

/-- The most levels a tree may have. -/
def maxLevels : Nat := 1000

/-- Why a text is refused. -/
inductive Refusal where
  | tooDeep (depth : Nat)
  | malformed (error : SyntaxError)
  deriving DecidableEq, Repr

/-- The wording of a refusal. -/
def Refusal.message : Refusal → String
  | .tooDeep depth =>
    "Tree nesting too deep: " ++ toString depth ++ " levels (limit " ++ toString maxLevels ++ ")"
  | .malformed error => "Tree syntax error: " ++ error.excerpt

/-- The tree that a text stands for. -/
def parse (text : List Char) : Except Refusal Ast :=
  let depth := deepestNesting text
  if depth > maxLevels then .error (.tooDeep depth)
  else
    match readText maxLevels text with
    | some (.ok tree) => .ok tree
    | some (.error misses) => .error (.malformed (.ofMisses text misses))
    | none => .error (.tooDeep depth)

/-- The tree that a text stands for, as an arena with ids in pre-order. -/
def parseArena (text : String) : Except Refusal Arena := (parse text.toList).map Ast.inPreOrder

end PathCorpus.SExpr
