import SchemaGraph.Text.Quoted
import SchemaGraph.Text.Word

/-!
# Tokens

A document is a sequence of tokens: names, literals and punctuation marks, closed by a mark for
the end of the text. Keywords are not a kind of their own: a name is a keyword wherever the
grammar looks for one, quoted or not.
-/

namespace SchemaGraph

/-- The tokens of the schema language. -/
inductive Token where
  /-- A name, bare or in double quotes. -/
  | name (text : String)
  /-- A text in single or triple quotes. -/
  | string (text : String)
  /-- An expression in backticks. -/
  | expression (text : String)
  /-- A decimal number, as it is written. -/
  | number (text : String)
  | openBrace
  | closeBrace
  | openParen
  | closeParen
  | openBracket
  | closeBracket
  | comma
  | colon
  | dot
  | tilde
  | less
  | greater
  | minus
  /-- The two characters `<>`. -/
  | diamond
  | endOfText
  deriving DecidableEq, Repr

/-- A token with the line, counted from 1, on which it begins. -/
structure Lexeme where
  token : Token
  line : Nat
  deriving DecidableEq, Repr

namespace Token

/-- Whether a token is a given keyword, in any case. -/
def isKeyword (keyword : String) : Token → Bool
  | .name text => Text.sameWord text keyword
  | _ => false

/-- Whether a token is a name. -/
def isName : Token → Bool
  | .name _ => true
  | _ => false

/-- The tokens of one character, by that character. A minus sign and `>` stand alone; `<` is not
among them, because `<>` is a token too. -/
def ofMark : Char → Option Token
  | '\x7b' => some .openBrace
  | '\x7d' => some .closeBrace
  | '(' => some .openParen
  | ')' => some .closeParen
  | '[' => some .openBracket
  | ']' => some .closeBracket
  | ',' => some .comma
  | ':' => some .colon
  | '.' => some .dot
  | '~' => some .tilde
  | '>' => some .greater
  | '-' => some .minus
  | _ => none

/-- How a message shows a token: its kind, and in parentheses the quoted text it carries. -/
def shown : Token → String
  | .name text => "Ident(" ++ Text.quoted text ++ ")"
  | .string text => "Str(" ++ Text.quoted text ++ ")"
  | .expression text => "Expr(" ++ Text.quoted text ++ ")"
  | .number text => "Num(" ++ Text.quoted text ++ ")"
  | .openBrace => "LBrace"
  | .closeBrace => "RBrace"
  | .openParen => "LParen"
  | .closeParen => "RParen"
  | .openBracket => "LBracket"
  | .closeBracket => "RBracket"
  | .comma => "Comma"
  | .colon => "Colon"
  | .dot => "Dot"
  | .tilde => "Tilde"
  | .less => "Lt"
  | .greater => "Gt"
  | .minus => "Minus"
  | .diamond => "Diamond"
  | .endOfText => "Eof"

end Token

end SchemaGraph
