import SchemaGraph.Document.Basic
import SchemaGraph.Grammar.Cursor

/-!
# Settings

Settings stand between brackets after the thing they belong to. The columns of a table have
settings of their own; everything else has general ones, each a key of one or more words with an
optional value. A value is the text of its tokens written one after the other, in which strings
and expressions keep their quotes.
-/

namespace SchemaGraph

/-- A general setting. The words of its key are in lower case and parted by single spaces. -/
structure Setting where
  key : String
  value : Option String
  deriving DecidableEq, Repr

namespace Setting

/-- The value of the last setting with a given key. -/
def lastValue (settings : List Setting) (key : String) : Option String :=
  (settings.reverse.find? (·.key == key)).bind Setting.value

/-- Whether some setting has a given key. -/
def has (settings : List Setting) (key : String) : Bool :=
  settings.any (·.key == key)

end Setting

/-- A value without the single quotes at its ends. -/
def unquote (value : String) : String :=
  String.ofList (Text.trimWhile (· == '\'') value.toList)

namespace Token

/-- The text that a token contributes to the value of a setting. -/
def valueText? : Token → Option String
  | .string text => some ("'" ++ text ++ "'")
  | .expression text => some ("\x60" ++ text ++ "\x60")
  | .name text | .number text => some text
  | .minus => some "-"
  | .dot => some "."
  | _ => none

/-- The text of a name. -/
def name? : Token → Option String
  | .name text => some text
  | _ => none

end Token

namespace Reader

/-- Read the value of a setting, which ends at a comma or at the end of the settings. -/
def settingValue : Reader String := do
  let parts ← run Token.valueText?
  let value := String.join parts
  let t := (← next).token
  if value ≠ "" ∧ (t = .comma ∨ t = .closeBracket) then return value
  else unexpected .settingValue

/-- Read a colon and a value, where a colon follows. -/
def optionalValue : Reader (Option String) :=
  optional (·.at? .colon) do
    skip
    settingValue

/-- Read a general setting. -/
def setting : Reader Setting := do
  let first ← name
  let others ← run Token.name?
  let value ← optionalValue
  return ⟨" ".intercalate ((first :: others).map Text.lowered), value⟩

/-- Read the settings of something other than a column. -/
def settings : Reader (List Setting) :=
  bracketed setting

/-- Read settings where they follow on the same line. -/
def settingsOnLine : Reader (List Setting) :=
  return (← optional (fun c => c.continuesLine && c.at? .openBracket) settings).getD []

end Reader

end SchemaGraph
