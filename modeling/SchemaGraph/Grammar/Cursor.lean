import SchemaGraph.Dialect
import SchemaGraph.Token.Scan

/-!
# Reading tokens

A reader takes tokens from the front of what is ahead and either builds a value or stops with an
error. Readers look at most one token beyond the next one. Whether a token continues the line of
the one before it decides what some declarations attach to themselves, so a cursor remembers that
line.

All repetition goes through `manyWhile` and `run`. Every round of `manyWhile` takes a token, so
that the number of tokens ahead bounds its rounds.
-/

namespace SchemaGraph

/-- What would have continued a document where it breaks off. -/
inductive Expectation where
  | declaration
  | identifier
  | string
  | note
  /-- The next punctuation mark, as it is written. -/
  | mark (text : String)
  | keyword (text : String)
  | typeArgument
  | indexColumn
  | settingValue
  /-- Another setting, or the end of the settings. -/
  | nextSetting
  | relation
  /-- The rest of a reference after its name. -/
  | refBody
  /-- An endpoint with no more than a schema, a table and a field. -/
  | shortEndpoint
  /-- A column where a partial tries to inject another partial. -/
  | partialColumn
  deriving DecidableEq, Repr

namespace Expectation

/-- The wording of an expectation. -/
def text : Expectation → String
  | .declaration => "Table, TablePartial, Ref, Enum, or Project"
  | .identifier => "identifier"
  | .string => "string"
  | .note => "note"
  | .mark text => text
  | .keyword text => text
  | .typeArgument => "type argument"
  | .indexColumn => "index column"
  | .settingValue => "setting value"
  | .nextSetting => ", or ]"
  | .relation => "relation (<, >, -, <>)"
  | .refBody => ": or \x7b"
  | .shortEndpoint => "endpoint of the form [schema.]table.field"
  | .partialColumn => "column (partials cannot inject partials)"

end Expectation

/-- What only the dialect with partials knows. -/
inductive PartialConstruct where
  | declaration
  | injection
  deriving DecidableEq, Repr

/-- The name of a construct. -/
def PartialConstruct.text : PartialConstruct → String
  | .declaration => "TablePartial"
  | .injection => "partial injection"

/-- What keeps a text from being a document. -/
inductive ParseError where
  | scan (error : ScanError)
  | unexpected (found : Token) (expected : Expectation) (line : Nat)
  | unsupported (construct : PartialConstruct) (dialect : Dialect) (line : Nat)
  deriving DecidableEq, Repr

namespace ParseError

/-- The line that the error is about. -/
def line : ParseError → Nat
  | .scan error => error.line
  | .unexpected _ _ line => line
  | .unsupported _ _ line => line

/-- The wording of the error. -/
def message : ParseError → String
  | .scan error => "Lex error: " ++ error.message
  | .unexpected found expected line =>
    s!"line {line}: unexpected token " ++ found.shown ++ ", expected " ++ expected.text
  | .unsupported construct dialect line =>
    s!"line {line}: " ++ construct.text ++ " is not supported by the " ++ dialect.name ++ " dialect"

end ParseError

/-- A place between two tokens. -/
structure Cursor where
  /-- The tokens that follow. -/
  ahead : List Lexeme
  /-- The line of the token before, or the first line. -/
  lastLine : Nat
  deriving DecidableEq, Repr

namespace Cursor

/-- The next token; behind the last one, the end of the text. -/
def next (c : Cursor) : Lexeme :=
  c.ahead.headD ⟨.endOfText, c.lastLine⟩

/-- The token after the next one. -/
def second (c : Cursor) : Token :=
  match c.ahead with
  | _ :: x :: _ => x.token
  | _ => .endOfText

/-- The place behind the next token. -/
def moved (c : Cursor) : Cursor :=
  match c.ahead with
  | [] => c
  | x :: rest => ⟨rest, x.line⟩

/-- Whether the next token begins on the line on which the one before it began. -/
def continuesLine (c : Cursor) : Bool :=
  c.next.line == c.lastLine && c.next.token != .endOfText

/-- Whether the next token is `t`. -/
def at? (c : Cursor) (t : Token) : Bool :=
  c.next.token == t

/-- Whether the next token is a name. -/
def atName (c : Cursor) : Bool :=
  c.next.token.isName

/-- The longest run of tokens with an image under `f`: their images, and the place behind them. -/
def run {α : Type} (f : Token → Option α) : List Lexeme → Nat → List α × Cursor
  | [], line => ([], ⟨[], line⟩)
  | x :: rest, line =>
    match f x.token with
    | some a => ((a :: (run f rest x.line).1), (run f rest x.line).2)
    | none => ([], ⟨x :: rest, line⟩)

end Cursor

/-- Takes tokens at a cursor and builds a value, or stops with an error. -/
abbrev Reader := StateT Cursor (Except ParseError)

namespace Reader

variable {α : Type}

/-- Look at the next token. -/
def next : Reader Lexeme :=
  return (← get).next

/-- Look at the token after the next one. -/
def second : Reader Token :=
  return (← get).second

/-- Ask something about the place. -/
def test (condition : Cursor → Bool) : Reader Bool :=
  return condition (← get)

/-- Take the next token. -/
def skip : Reader Unit :=
  modify Cursor.moved

/-- Stop, because something else should have stood in place of the next token. -/
def unexpected (expected : Expectation) : Reader α := do
  let found ← next
  throw (.unexpected found.token expected found.line)

/-- Take the next token, which has to be `t`. -/
def expect (t : Token) (expected : Expectation) : Reader Unit := do
  if (← next).token = t then skip else unexpected expected

/-- Take the next token, which has to be a keyword. -/
def expectKeyword (keyword : String) : Reader Unit := do
  if (← next).token.isKeyword keyword then skip else unexpected (.keyword keyword)

/-- Take a name. -/
def name : Reader String := do
  match (← next).token with
  | .name text => skip; return text
  | _ => unexpected .identifier

/-- Take a text: a name or a string. -/
def text : Reader String := do
  match (← next).token with
  | .name text | .string text => skip; return text
  | _ => unexpected .string

/-- Take the longest run of tokens with an image under `f`. -/
def run (f : Token → Option α) : Reader (List α) := fun c =>
  .ok (Cursor.run f c.ahead c.lastLine)

/-- Read something where a condition holds, and nothing elsewhere. -/
def optional (condition : Cursor → Bool) (item : Reader α) : Reader (Option α) := do
  if ← test condition then return some (← item) else return none

/-- At most `rounds` rounds of `manyWhile`. -/
def manyRounds (condition : Cursor → Bool) (item : Reader α) : Nat → Reader (List α)
  | 0 => return []
  | rounds + 1 => do
    if ← test condition then
      let first ← item
      let others ← manyRounds condition item rounds
      return first :: others
    else return []

/-- Read items as long as a condition holds. Each item has to take a token. -/
def manyWhile (condition : Cursor → Bool) (item : Reader α) : Reader (List α) := do
  manyRounds condition item (← get).ahead.length

/-- Read items up to a token that closes them. -/
def manyUntil (close : Token) (item : Reader α) : Reader (List α) :=
  manyWhile (fun c => !c.at? close) item

/-- Read items between braces. -/
def braced (item : Reader α) : Reader (List α) := do
  expect .openBrace (.mark "\x7b")
  let items ← manyUntil .closeBrace item
  expect .closeBrace (.mark "\x7d")
  return items

/-- Read what parts a setting from the next one: a comma, unless the settings end. -/
def separator : Reader Unit := do
  let t := (← next).token
  if t = .comma then skip
  else if t = .closeBracket then return ()
  else unexpected .nextSetting

/-- Read settings between brackets. -/
def bracketed (setting : Reader α) : Reader (List α) := do
  expect .openBracket (.mark "[")
  let settings ← manyUntil .closeBracket do
    let s ← setting
    separator
    return s
  expect .closeBracket (.mark "]")
  return settings

end Reader

end SchemaGraph
