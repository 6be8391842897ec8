import SchemaGraph.Text.Ranges

/-!
# Blank characters

The characters with the property *White_Space* separate the words of a document and are dropped
from the ends of a line or of a long string.
-/

namespace SchemaGraph.Text

/-- The blank characters. -/
def blankRanges : Ranges :=
  [(0x9, 0xd), (0x20, 0x20), (0x85, 0x85), (0xa0, 0xa0), (0x1680, 0x1680), (0x2000, 0x200a),
   (0x2028, 0x2029), (0x202f, 0x202f), (0x205f, 0x205f), (0x3000, 0x3000)]

/-- Whether a character is blank. -/
def isBlank (c : Char) : Bool :=
  blankRanges.covers c

/-- Drop the longest stretch of characters in a class from both ends. -/
def trimWhile (drop : Char → Bool) (cs : List Char) : List Char :=
  ((cs.dropWhile drop).reverse.dropWhile drop).reverse

/-- Drop the blank characters at the start. -/
def trimStart (cs : List Char) : List Char :=
  cs.dropWhile isBlank

/-- Drop the blank characters at both ends. -/
def trim (cs : List Char) : List Char :=
  trimWhile isBlank cs

end SchemaGraph.Text
