import SchemaGraph.Token.Scan

/-!
# Writing tokens

Every token has a written form on a single line: texts stand in quotes, with a backslash before a
backslash or a closing quote and `\n` for a newline, and everything else stands as it is. Tokens
are parted by single spaces.
-/

namespace SchemaGraph

namespace Quotation

/-- A character inside a quoted form. -/
def escapedChar (form : Quotation) (c : Char) : List Char :=
  if c = '\n' then ['\\', 'n']
  else if c = '\\' ∨ c = form.mark then ['\\', c]
  else [c]

/-- A text in a quoted form. -/
def written (form : Quotation) (text : String) : List Char :=
  form.mark :: text.toList.flatMap form.escapedChar ++ [form.mark]

end Quotation

namespace Token

/-- The written form of a token. The end of the text has none. -/
def written : Token → List Char
  | .name text => Quotation.name.written text
  | .string text => Quotation.string.written text
  | .expression text => Quotation.expression.written text
  | .number text => text.toList
  | .openBrace => ['\x7b']
  | .closeBrace => ['\x7d']
  | .openParen => ['(']
  | .closeParen => [')']
  | .openBracket => ['[']
  | .closeBracket => [']']
  | .comma => [',']
  | .colon => [':']
  | .dot => ['.']
  | .tilde => ['~']
  | .less => ['<']
  | .greater => ['>']
  | .minus => ['-']
  | .diamond => ['<', '>']
  | .endOfText => []

/-- The written form of tokens on one line. -/
def writtenLine (tokens : List Token) : List Char :=
  ((tokens.map written).intersperse [' ']).flatten

end Token

end SchemaGraph
