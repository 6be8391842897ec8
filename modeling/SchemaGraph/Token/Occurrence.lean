import SchemaGraph.Token.Scan

/-!
# Where tokens stand

A text consists of the characters that spell its tokens and of filler between them, blanks and
comments. What spells a token and what is filler is said here of the characters alone, and not by
what a scan does at them. So the end of one token, the start of the next one and the line on which
either of them is are places in the text.
-/

namespace SchemaGraph

/-- What stands between tokens and for none of them: blanks and comments. -/
inductive Filler : List Char → Prop
  | nil : Filler []
  | blank {c : Char} {rest : List Char} (hblank : Text.isBlank c = true) (hrest : Filler rest) :
    Filler (c :: rest)
  /-- A line comment, with the newline that ends it. -/
  | lineComment {body rest : List Char} (hbody : '\n' ∉ body) (hrest : Filler rest) :
    Filler ('/' :: '/' :: (body ++ '\n' :: rest))
  /-- A block comment, which the first star with a slash behind it ends. -/
  | blockComment {body rest : List Char} (hbody : ¬ ['*', '/'] <:+: body) (hrest : Filler rest) :
    Filler ('/' :: '*' :: (body ++ '*' :: '/' :: rest))

/-- How a number goes on: with digits, and with dots that a digit follows. -/
def continuesNumber : List Char → Bool
  | [] => true
  | '.' :: d :: rest => d.isDigit && continuesNumber rest
  | c :: rest => c.isDigit && continuesNumber rest

/-- Whether characters are a number: they begin with a digit and are digits and dots, and a digit
follows every dot. -/
def isNumber : List Char → Bool
  | [] => false
  | c :: rest => c.isDigit && continuesNumber rest

/-- What spells a bare name. -/
inductive BareName : List Char → Prop
  | word {c : Char} (hc : Text.opensWord c = true) : BareName [c]
  | colour {c : Char} (hc : (Text.isLetter c || Text.isNumeric c) = true) : BareName ['#', c]
  | numbered {digits : List Char} {c : Char} (hdigits : isNumber digits = true)
    (hc : Text.opensWord c = true) : BareName (digits ++ [c])
  | more {cs : List Char} {c : Char} (hcs : BareName cs) (hc : Text.isWordChar c = true) :
    BareName (cs ++ [c])

/-- What spells a text between the marks of a quoted form. -/
inductive Quotation.Body (form : Quotation) : List Char → List Char → Prop
  | nil : Body form [] []
  | plain {c : Char} {cs text : List Char} (hmark : c ≠ form.mark) (hbackslash : c ≠ '\\')
    (h : Body form cs text) : Body form (c :: cs) (c :: text)
  | escaped {c : Char} {cs text : List Char} (h : Body form cs text) :
    Body form ('\\' :: c :: cs) (unescape c :: text)

/-- Three single quotes, which open and close a text that is taken as it stands. -/
def tripleQuote : List Char :=
  ['\'', '\'', '\'']

/-- What spells a token. -/
inductive Token.SpelledBy : Token → List Char → Prop
  | mark {t : Token} {c : Char} (h : Token.ofMark c = some t) : t.SpelledBy [c]
  | less : less.SpelledBy ['<']
  | diamond : diamond.SpelledBy ['<', '>']
  | bare {cs : List Char} (h : BareName cs) : (name (String.ofList cs)).SpelledBy cs
  | number {cs : List Char} (h : isNumber cs = true) : (number (String.ofList cs)).SpelledBy cs
  | quoted {form : Quotation} {cs text : List Char} (h : form.Body cs text) :
    (form.token (String.ofList text)).SpelledBy (form.mark :: (cs ++ [form.mark]))
  /-- The first three single quotes in a row end a text in triple quotes. -/
  | tripleQuoted {body : List Char} (hbody : ¬ tripleQuote <:+: body)
    (hlast : body.getLast? ≠ some '\'') :
    (string (String.ofList (Text.trim body))).SpelledBy (tripleQuote ++ body ++ tripleQuote)

/-- A token in a text. -/
structure Occurrence where
  /-- What stands between the token before, or the start of the text, and this one. -/
  gap : List Char
  /-- What spells the token. -/
  source : List Char
  token : Token

namespace Occurrence

/-- The characters of a token and of the gap before it. -/
def chars (o : Occurrence) : List Char :=
  o.gap ++ o.source

/-- The gap is filler, and the token is spelled by its characters. -/
structure Sound (o : Occurrence) : Prop where
  gap : Filler o.gap
  source : o.token.SpelledBy o.source

/-- The lexemes of tokens that stand one after the other, from a line on: a token is on the line
behind the newlines before it. -/
def lexemesFrom (line : Nat) : List Occurrence → List Lexeme
  | [] => []
  | o :: os => ⟨o.token, line + o.gap.count '\n'⟩ :: lexemesFrom (line + o.chars.count '\n') os

/-- Tokens make up a text, with what is behind the last one: filler, but for the newline that a line
comment at the end of the text lacks. -/
structure MakeUp (os : List Occurrence) (text : List Char) : Prop where
  sound : ∀ o ∈ os, o.Sound
  chars : ∃ behind, text = os.flatMap chars ++ behind ∧ Filler (behind ++ ['\n'])

end Occurrence

end SchemaGraph
