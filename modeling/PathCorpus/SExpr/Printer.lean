import PathCorpus.Ast.Basic

/-!
# Writing a tree as an S-expression

The plain form: one space before a token and before each child, and no other gap. A token is
written between quotation marks, with the escapes that keep it on one line.
-/

namespace PathCorpus.SExpr

/-- One character of a token. -/
def escapeTokenChar : Char → List Char
  | '"' => ['\\', '"']
  | '\\' => ['\\', '\\']
  | '\n' => ['\\', 'n']
  | '\t' => ['\\', 't']
  | '\r' => ['\\', 'r']
  | c => [c]

/-- A token between quotation marks. -/
def printToken (token : String) : List Char :=
  '"' :: token.toList.flatMap escapeTokenChar ++ ['"']

mutual

/-- A tree in parentheses. -/
def print : Ast → List Char
  | .node label token? children =>
    '(' :: label.toList
      ++ (match token? with
        | some token => ' ' :: printToken token
        | none => [])
      ++ printAll children ++ [')']

/-- Trees one after another, a space before each. -/
def printAll : List Ast → List Char
  | [] => []
  | a :: as => ' ' :: print a ++ printAll as

end

end PathCorpus.SExpr
