import SchemaGraph.Text.Letter
import SchemaGraph.Text.Numeric

/-!
# Words

A bare name is a run of letters, numeric characters and underscores. Two words that differ only
in the case of ASCII letters are the same keyword.
-/

namespace SchemaGraph.Text

/-- Whether a character may stand inside a bare name. -/
def isWordChar (c : Char) : Bool :=
  isLetter c || isNumeric c || c == '_'

/-- Whether a character may open a bare name, or turn a number into one. -/
def opensWord (c : Char) : Bool :=
  isLetter c || c == '_'

/-- Whether two words agree up to the case of ASCII letters. -/
def sameWord (a b : String) : Bool :=
  a.toList.map Char.toLower == b.toList.map Char.toLower

/-- Whether a word begins with another one, up to the case of ASCII letters. -/
def beginsWith (word start : String) : Bool :=
  (start.toList.map Char.toLower).isPrefixOf (word.toList.map Char.toLower)

/-- A character in lower case, as far as an ASCII letter can come of it: beyond ASCII only the
Kelvin sign has an ASCII letter for its lower case. -/
def lowerToAscii (c : Char) : Char :=
  if c = '\u212a' then 'k' else c.toLower

/-- A word in lower case, for comparison with words of ASCII letters. -/
def lowered (word : String) : String :=
  String.ofList (word.toList.map lowerToAscii)

/-- What may open a word may stand inside it. -/
theorem isWordChar_of_opensWord {c : Char} (h : opensWord c = true) : isWordChar c = true := by
  simp only [opensWord, isWordChar, Bool.or_eq_true] at *
  exact h.elim (fun l => .inl (.inl l)) .inr

end SchemaGraph.Text
