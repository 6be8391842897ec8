import SchemaGraph.Grammar.Setting

/-!
# Columns and endpoints

A column is a name, followed on the same line by an optional type and optional settings. An
endpoint is the path of a table, followed by the field or the fields that a reference meets there.
-/

namespace SchemaGraph

namespace Endpoint

/-- The endpoint with a table's path and some fields, where the path is no longer than a schema
and a table. -/
def ofPath? : List String → List String → Option Endpoint
  | [table], fields => some ⟨none, table, fields⟩
  | [schema, table], fields => some ⟨some schema, table, fields⟩
  | _, _ => none

/-- The path and the fields that a dotted name gives: the last of several names is a field. -/
def splitField : List String → List String × List String
  | [] => ([], [])
  | [table] => ([table], [])
  | names => (names.dropLast, names.getLast?.toList)

end Endpoint

/-- The relation that a token stands for. -/
def Token.relation? : Token → Option Relation
  | .greater => some .manyToOne
  | .less => some .oneToMany
  | .minus => some .oneToOne
  | .diamond => some .manyToMany
  | _ => none

/-- What a token contributes to the arguments of a type: a comma contributes nothing. -/
def Token.typeArgument? : Token → Option (Option String)
  | .comma => some none
  | .number text | .name text | .string text => some (some text)
  | _ => none

namespace Reader

/-- Read a relation. -/
def relation : Reader Relation := do
  match (← next).token.relation? with
  | some r => skip; return r
  | none => unexpected .relation

/-- Read the names that follow a comma each. -/
def moreFields : Reader (List String) :=
  manyWhile (·.at? .comma) do
    skip
    name

/-- Read a dot and the fields in parentheses that a reference pairs. -/
def compositeFields : Reader (List String) := do
  skip
  skip
  let first ← name
  let others ← moreFields
  expect .closeParen (.mark ")")
  return first :: others

/-- Read the names that follow a dot each, up to fields in parentheses. -/
def dottedNames : Reader (List String) :=
  manyWhile (fun c => c.at? .dot && c.second != .openParen) do
    skip
    name

/-- Read an endpoint. A path that is too long is reported at its last token. -/
def endpoint : Reader Endpoint := do
  let first ← name
  let others ← dottedNames
  let composite ← optional (·.at? .dot) compositeFields
  let (path, fields) := match composite with
    | some fields => (first :: others, fields)
    | none => Endpoint.splitField (first :: others)
  match Endpoint.ofPath? path fields with
  | some e => return e
  | none => throw (.unexpected .dot .shortEndpoint (← get).lastLine)

/-- Read a dot and a name, where a dot follows. -/
def typeQualifier : Reader String :=
  return (← optional (·.at? .dot) do
    skip
    return "." ++ (← name)).getD ""

/-- Read the arguments of a type, where a parenthesis follows. -/
def typeArguments : Reader String :=
  return (← optional (·.at? .openParen) do
    skip
    let parts ← run Token.typeArgument?
    expect .closeParen .typeArgument
    return "(" ++ ",".intercalate (parts.filterMap id) ++ ")").getD ""

/-- Read the pair of brackets that makes a type an array, where it follows. -/
def typeArray : Reader String :=
  return (← optional (fun c => c.at? .openBracket && c.second == .closeBracket) do
    skip
    skip
    return "[]").getD ""

/-- Read a type, such as `int`, `status.kind`, `decimal(10, 2)` or `int[]`. -/
def columnType : Reader String := do
  let base ← name
  let qualifier ← typeQualifier
  let arguments ← typeArguments
  let array ← typeArray
  return base ++ qualifier ++ arguments ++ array

/-- Read one setting of a column. A setting with another key says nothing. -/
def columnSetting : Reader (Option ColumnSetting) := do
  let head := (← next).token
  if head.isKeyword "pk" then
    skip
    return some .primaryKey
  else if head.isKeyword "primary" then
    skip
    expectKeyword "key"
    return some .primaryKey
  else if head.isKeyword "not" then
    skip
    expectKeyword "null"
    return some .notNull
  else if head.isKeyword "null" then
    skip
    return some .null
  else if head.isKeyword "unique" then
    skip
    return some .unique
  else if head.isKeyword "increment" then
    skip
    return some .increment
  else if head.isKeyword "note" then
    skip
    expect .colon (.mark ":")
    return some (.note (← text))
  else if head.isKeyword "default" then
    skip
    expect .colon (.mark ":")
    return some (.default (← settingValue))
  else if head.isKeyword "ref" then
    skip
    expect .colon (.mark ":")
    let relation ← relation
    let target ← endpoint
    return some (.ref ⟨relation, target⟩)
  else
    let _ ← name
    let _ ← optionalValue
    return none

/-- Read the settings of a column. -/
def columnSettings : Reader (List ColumnSetting) :=
  return (← bracketed columnSetting).filterMap id

/-- Read a column. -/
def column : Reader Column := do
  let line := (← next).line
  let name ← name
  let type ← optional (fun c => c.continuesLine && c.atName) columnType
  let settings ← optional (fun c => c.continuesLine && c.at? .openBracket) columnSettings
  return ⟨name, type, settings.getD [], line⟩

end Reader

end SchemaGraph
