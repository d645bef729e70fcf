import PathCorpus.Text.Extending
import PathCorpus.Text.Shapeless

/-!
# Quoted text

Text as it is shown inside a message: between quotation marks, with every character that could be
misread written as an escape. A quotation mark and a backslash take a backslash, four controls have
a letter of their own, and any other character that has no shape or that extends its neighbour is
given by its code point in hexadecimal, as `\u{a0}`.
-/

namespace PathCorpus.Text

/-- A number in hexadecimal, in lower case and without leading zeros. -/
def hex (n : Nat) : List Char := Nat.toDigits 16 n

/-- One character of a quotation. -/
def quoteChar (c : Char) : List Char :=
  match c with
  | '\x00' => ['\\', '0']
  | '\t' => ['\\', 't']
  | '\n' => ['\\', 'n']
  | '\r' => ['\\', 'r']
  | '"' => ['\\', '"']
  | '\\' => ['\\', '\\']
  | c => if isExtending c || isShapeless c then "\\u\x7b".toList ++ hex c.toNat ++ ['\x7d'] else [c]

/-- The text between quotation marks, escaped. -/
def quoted (s : String) : String := String.ofList ('"' :: s.toList.flatMap quoteChar ++ ['"'])

end PathCorpus.Text
