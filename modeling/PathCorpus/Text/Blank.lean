import PathCorpus.Text.CharRange

/-!
# Blank characters

The property `White_Space` of the character standard: what separates words, and so what a label
may not contain. A line that holds nothing else is blank.
-/

namespace PathCorpus.Text

/-- The characters with the property `White_Space`. -/
def blankRanges : List CharRange := CharRange.ofPairs [
  (0x9, 0xd), (0x20, 0x20), (0x85, 0x85), (0xa0, 0xa0), (0x1680, 0x1680), (0x2000, 0x200a),
  (0x2028, 0x2029), (0x202f, 0x202f), (0x205f, 0x205f), (0x3000, 0x3000)]

/-- The character is white space. -/
def isBlank (c : Char) : Bool := CharRange.any blankRanges c

/-- Nothing but white space. -/
def isBlankText (cs : List Char) : Bool := cs.all isBlank

end PathCorpus.Text
