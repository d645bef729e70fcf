/-!
# How deep parentheses nest

One pass over a text, left to right, that keeps the number of open parentheses and the greatest
such number so far. Parentheses in tokens and comments do not count. The pass knows nothing of
labels, so it gives an answer for any text; a closing parenthesis too many is ignored.
-/

namespace PathCorpus.SExpr

/-- What the next character belongs to. -/
inductive Region where
  /-- Neither a token nor a comment. -/
  | outside
  | token
  /-- The character after a backslash in a token. -/
  | escaped
  | comment
  deriving DecidableEq, Repr

/-- The state of the pass. -/
structure Nesting where
  region : Region := .outside
  /-- The parentheses open now. -/
  depth : Nat := 0
  /-- The most that were open at once. -/
  deepest : Nat := 0
  deriving DecidableEq, Repr

namespace Nesting

/-- The state after one more character. -/
def step (n : Nesting) (c : Char) : Nesting :=
  match n.region with
  | .outside =>
    if c = '(' then { n with depth := n.depth + 1, deepest := max n.deepest (n.depth + 1) }
    else if c = ')' then { n with depth := n.depth - 1 }
    else if c = '"' then { n with region := .token }
    else if c = ';' then { n with region := .comment }
    else n
  | .token =>
    if c = '\\' then { n with region := .escaped }
    else if c = '"' then { n with region := .outside }
    else n
  | .escaped => { n with region := .token }
  | .comment => if c = '\n' then { n with region := .outside } else n

/-- The state after a text. -/
def scan (s : List Char) : Nesting := s.foldl step {}

end Nesting

/-- The greatest number of parentheses that are open at once. -/
def deepestNesting (s : List Char) : Nat := (Nesting.scan s).deepest

end PathCorpus.SExpr
