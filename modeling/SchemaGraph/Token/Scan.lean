import SchemaGraph.Text.Blank
import SchemaGraph.Token.Basic

/-!
# Scanning a text into tokens

A scan reads a text one character at a time and remembers what it is in the middle of. Reading
the text `a ++ b` is reading `a` and then `b` from where `a` left off, so that every fact about a
scan is a fact about one step.

Blanks and comments separate tokens and are dropped. A line comment runs from `//` to the end of
the line, a block comment from `/*` to the next `*/`. A token carries the line on which it begins.
A text in triple quotes is taken as it stands, without blanks at its ends; the other quoted forms
know a backslash before any character, which stands for a newline before `n`, for a tab before `t`
and for the character itself otherwise.
-/

namespace SchemaGraph

/-- What keeps a text from being a sequence of tokens. -/
inductive ScanError where
  | unexpectedCharacter (c : Char) (line : Nat)
  /-- A quoted text that began on `line` has no end. -/
  | unterminatedString (line : Nat)
  /-- A block comment that began on `line` has no end. -/
  | unterminatedComment (line : Nat)
  deriving DecidableEq, Repr

namespace ScanError

/-- The line that the error is about. -/
def line : ScanError → Nat
  | .unexpectedCharacter _ line => line
  | .unterminatedString line => line
  | .unterminatedComment line => line

/-- The wording of the error. -/
def message : ScanError → String
  | .unexpectedCharacter c line => s!"line {line}: unexpected character: {c}"
  | .unterminatedString line => s!"line {line}: unterminated string"
  | .unterminatedComment line => s!"line {line}: unterminated comment"

end ScanError

/-- The quoted forms that know escapes. -/
inductive Quotation where
  | name
  | string
  | expression
  deriving DecidableEq, Repr

namespace Quotation

/-- The character that opens and closes the form. -/
def mark : Quotation → Char
  | .name => '"'
  | .string => '\''
  | .expression => '\x60'

/-- The token for a text in the form. -/
def token (text : String) : Quotation → Token
  | .name => .name text
  | .string => .string text
  | .expression => .expression text

/-- The form that a character opens, if it can be told from that character alone. -/
def ofMark (c : Char) : Option Quotation :=
  if c = '"' then some .name else if c = '\x60' then some .expression else none

end Quotation

/-- The character that a backslash before `c` stands for. -/
def unescape (c : Char) : Char :=
  if c = 'n' then '\n' else if c = 't' then '\t' else c

/-- What a scan is in the middle of. Characters read so far are listed latest first. -/
inductive Scanning where
  /-- Between two tokens. -/
  | gap
  /-- After a slash that may open a comment. -/
  | slash
  | lineComment
  /-- In a block comment; `star` tells whether the last character was a star in it. -/
  | blockComment (start : Nat) (star : Bool)
  | word (read : List Char)
  | number (read : List Char)
  /-- After a number and a dot that belongs to it only if a digit follows. -/
  | numberDot (read : List Char)
  /-- After a hash sign, which opens a colour such as `#3498DB`. -/
  | hash
  /-- After `<`, which may be the first half of `<>`. -/
  | less
  /-- After one single quote, which may be the first of three. -/
  | quote
  /-- After two single quotes: an empty text, or the first two of three. -/
  | twoQuotes
  | quoted (form : Quotation) (start : Nat) (read : List Char)
  /-- After a backslash in a quoted form. -/
  | escape (form : Quotation) (start : Nat) (read : List Char)
  /-- In a text in triple quotes, after `quotes` single quotes that may be its end. -/
  | tripleQuoted (start : Nat) (read : List Char) (quotes : Nat)
  deriving DecidableEq, Repr

/-- A scan part way through a text. -/
structure Scan where
  /-- The line of the next character. -/
  line : Nat
  doing : Scanning
  /-- The tokens found so far, latest first. -/
  found : List Lexeme
  deriving DecidableEq, Repr

namespace Scan

/-- A scan of which nothing is read yet. -/
def start : Scan :=
  ⟨1, .gap, []⟩

/-- Go over to another activity. -/
def into (s : Scan) (doing : Scanning) : Scan :=
  { s with doing }

/-- Record a token that begins on line `line`. -/
def emitAt (s : Scan) (line : Nat) (token : Token) : Scan :=
  { s with doing := .gap, found := ⟨token, line⟩ :: s.found }

/-- Record a token that begins on the current line. -/
def emit (s : Scan) (token : Token) : Scan :=
  s.emitAt s.line token

/-- Record a bare name. -/
def emitWord (s : Scan) (read : List Char) : Scan :=
  s.emit (.name (String.ofList read.reverse))

/-- Record a number. -/
def emitNumber (s : Scan) (read : List Char) : Scan :=
  s.emit (.number (String.ofList read.reverse))

/-- Read a character that stands between two tokens. -/
def readGap (s : Scan) (c : Char) : Except ScanError Scan :=
  if Text.isBlank c then .ok (s.into .gap)
  else match Token.ofMark c, Quotation.ofMark c with
    | some token, _ => .ok (s.emit token)
    | none, some form => .ok (s.into (.quoted form s.line []))
    | none, none =>
      if c = '/' then .ok (s.into .slash)
      else if c = '#' then .ok (s.into .hash)
      else if c = '<' then .ok (s.into .less)
      else if c = '\'' then .ok (s.into .quote)
      else if c.isDigit then .ok (s.into (.number [c]))
      else if Text.opensWord c then .ok (s.into (.word [c]))
      else .error (.unexpectedCharacter c s.line)

/-- Read a character inside a quoted form that began on line `start`. -/
def readQuoted (s : Scan) (form : Quotation) (start : Nat) (read : List Char) (c : Char) : Scan :=
  if c = form.mark then s.emitAt start (form.token (String.ofList read.reverse))
  else if c = '\\' then s.into (.escape form start read)
  else s.into (.quoted form start (c :: read))

/-- Read a character inside triple quotes that began on line `start`. Three single quotes in a row
are the end. -/
def readTripleQuoted (s : Scan) (start : Nat) (read : List Char) (quotes : Nat) (c : Char) : Scan :=
  if c = '\'' then
    if quotes = 2 then s.emitAt start (.string (String.ofList (Text.trim read.reverse)))
    else s.into (.tripleQuoted start read (quotes + 1))
  else s.into (.tripleQuoted start (c :: (List.replicate quotes '\'' ++ read)) 0)

/-- Read one character of the current line. -/
def read (s : Scan) (c : Char) : Except ScanError Scan :=
  match s.doing with
  | .gap => s.readGap c
  | .slash =>
    if c = '/' then .ok (s.into .lineComment)
    else if c = '*' then .ok (s.into (.blockComment s.line false))
    else .error (.unexpectedCharacter '/' s.line)
  | .lineComment => .ok (if c = '\n' then s.into .gap else s)
  | .blockComment start star =>
    .ok (if star && c = '/' then s.into .gap else s.into (.blockComment start (c = '*')))
  | .word read =>
    if Text.isWordChar c then .ok (s.into (.word (c :: read)))
    else (s.emitWord read).readGap c
  | .number read =>
    if c.isDigit then .ok (s.into (.number (c :: read)))
    else if c = '.' then .ok (s.into (.numberDot read))
    else if Text.opensWord c then .ok (s.into (.word (c :: read)))
    else (s.emitNumber read).readGap c
  | .numberDot read =>
    if c.isDigit then .ok (s.into (.number (c :: '.' :: read)))
    else ((s.emitNumber read).emit .dot).readGap c
  | .hash =>
    if Text.isLetter c || Text.isNumeric c then .ok (s.into (.word [c, '#']))
    else .error (.unexpectedCharacter '#' s.line)
  | .less => if c = '>' then .ok (s.emit .diamond) else (s.emit .less).readGap c
  | .quote =>
    .ok (if c = '\'' then s.into .twoQuotes else s.readQuoted .string s.line [] c)
  | .twoQuotes =>
    if c = '\'' then .ok (s.into (.tripleQuoted s.line [] 0))
    else (s.emit (.string "")).readGap c
  | .quoted form start read => .ok (s.readQuoted form start read c)
  | .escape form start read => .ok (s.into (.quoted form start (unescape c :: read)))
  | .tripleQuoted start read quotes => .ok (s.readTripleQuoted start read quotes c)

/-- Count the line that a newline ends. -/
def pass (s : Scan) (c : Char) : Scan :=
  if c = '\n' then { s with line := s.line + 1 } else s

/-- Read one character. -/
def step (s : Scan) (c : Char) : Except ScanError Scan :=
  (s.read c).map (·.pass c)

/-- The scan once no further character comes: a token that needs no end of its own is recorded,
and whatever needs one is an error. -/
def close (s : Scan) : Except ScanError Scan :=
  match s.doing with
  | .gap | .lineComment => .ok s
  | .slash => .error (.unexpectedCharacter '/' s.line)
  | .blockComment start _ => .error (.unterminatedComment start)
  | .word read => .ok (s.emitWord read)
  | .number read => .ok (s.emitNumber read)
  | .numberDot read => .ok ((s.emitNumber read).emit .dot)
  | .hash => .error (.unexpectedCharacter '#' s.line)
  | .less => .ok (s.emit .less)
  | .quote => .error (.unterminatedString s.line)
  | .twoQuotes => .ok (s.emit (.string ""))
  | .quoted _ start _ | .escape _ start _ | .tripleQuoted start _ _ =>
    .error (.unterminatedString start)

/-- The tokens found, in the order of the text. -/
def tokens (s : Scan) : List Lexeme :=
  s.found.reverse

end Scan

/-- The tokens of a text, closed by the mark for its end. -/
def scan (text : String) : Except ScanError (List Lexeme) := do
  let s ← text.toList.foldlM Scan.step Scan.start
  let closed ← s.close
  return (closed.emit .endOfText).tokens

end SchemaGraph
