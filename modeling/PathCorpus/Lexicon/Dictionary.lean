import PathCorpus.Lexicon.Rank
import PathCorpus.Limit
import PathCorpus.Text.Line
import PathCorpus.Text.Quoted

/-!
# Dictionaries

A lexicon written out, a text on each line after its id and a comma, with a line on top that
names the columns. Inside a text a comma, a backslash, a line feed and a carriage return are
written as escapes, so that each text stays on its line and the first comma ends the id. A limit
on ranks leaves the less frequent texts out.
-/

namespace PathCorpus

/-! ## §1: Escapes -/

/-- One character of a text in a dictionary. -/
def escapeDictionaryChar : Char → List Char
  | '\\' => ['\\', '\\']
  | ',' => ['\\', ',']
  | '\n' => ['\\', 'n']
  | '\r' => ['\\', 'r']
  | c => [c]

/-- A text as it stands in a dictionary. -/
def escapeDictionaryText (s : String) : String :=
  String.ofList (s.toList.flatMap escapeDictionaryChar)

namespace Lexicon

/-! ## §2: Rows -/

/-- The line on top. -/
def dictionaryHeader (x : Lexicon) : String := "id," ++ x.kind

/-- The line of one text. -/
def dictionaryRow (id : Nat) (value : String) : String :=
  toString id ++ "," ++ escapeDictionaryText value

/-- The lines of the texts whose ranks are within the limit, in the order of ids. -/
def dictionaryRows (x : Lexicon) (limit : Limit) : List String :=
  let ranks := x.ranks
  (x.toList.filter fun (id, _) => limit.Admits (ranks.getD (id - 1) 0)).map
    fun (id, value) => dictionaryRow id value

/-- The dictionary, each line ended by a line feed. -/
def dictionary (x : Lexicon) (limit : Limit) : String :=
  String.join ((x.dictionaryHeader :: x.dictionaryRows limit).map (· ++ "\n"))

/-- The dictionary cut into lines. -/
def dictionaryLines (x : Lexicon) (limit : Limit) : List String := Text.lines (x.dictionary limit)

/-! ## §3: In a word -/

/-- A short description: what the lexicon holds and how much of it. -/
def summary (x : Lexicon) : String :=
  "RankedIdRegistry \x7b kind: " ++ Text.quoted x.kind ++
    ", len: " ++ toString x.size ++ ", .. \x7d"

end Lexicon

end PathCorpus
