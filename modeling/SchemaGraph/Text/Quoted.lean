import SchemaGraph.Text.Unseen

/-!
# Quoted text

How a message quotes a piece of a document: between double quotes, with a backslash before a
double quote or a backslash, a short escape for the usual control characters, and the code point
in braces for every other character that would not show.
-/

namespace SchemaGraph.Text

/-- The code point of a character between braces, in hexadecimal. -/
def codePointEscape (c : Char) : List Char :=
  ['\\', 'u', '\x7b'] ++ Nat.toDigits 16 c.toNat ++ ['\x7d']

/-- The quoted form of one character. -/
def quotedChar (c : Char) : List Char :=
  if c = '"' ∨ c = '\\' then ['\\', c]
  else if c = '\n' then ['\\', 'n']
  else if c = '\r' then ['\\', 'r']
  else if c = '\t' then ['\\', 't']
  else if c = '\x00' then ['\\', '0']
  else if isUnseen c then codePointEscape c
  else [c]

/-- The quoted form of a text. -/
def quoted (text : String) : String :=
  String.ofList ('"' :: text.toList.flatMap quotedChar ++ ['"'])

end SchemaGraph.Text
