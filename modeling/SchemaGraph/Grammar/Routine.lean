import SchemaGraph.Grammar.Declaration

/-!
# Routines

A routine is a reader spelled out: what it looks at, where it takes a token, where it stops and
where it goes round in a loop. The loops of the grammar are named (`Loop`), and each of them goes on
as long as its condition holds, with no bound on its rounds. So a routine need not come to an end at
all. If it does, it ends with an outcome and after a number of rounds, in which the rounds of the
loops within its loops are counted too (`Routine.Ends`).
-/

namespace SchemaGraph

/-! ### Loops -/

/-- The loops of the grammar, by what one round of them gives. -/
inductive Loop : Type → Type where
  /-- The declarations of a text. -/
  | declarations (dialect : Dialect) : Loop Declaration
  /-- The entries of a project. -/
  | projectEntries : Loop ProjectEntry
  /-- The entries of a table or, if `injects` is false, of a partial. -/
  | bodyEntries (dialect : Dialect) (injects : Bool) : Loop BodyEntry
  /-- The arguments of a type and the commas between them. -/
  | typeArguments : Loop (Option String)
  /-- The settings of a column. -/
  | columnSettings : Loop (Option ColumnSetting)
  /-- The settings of something else. -/
  | settings : Loop Setting
  /-- The words of a key behind its first one. -/
  | keyWords : Loop String
  /-- The tokens of the value of a setting. -/
  | valueParts : Loop String
  /-- The indexes of a table or a partial. -/
  | indexes : Loop Index
  /-- The columns of an index and the commas between them. -/
  | indexColumns : Loop (Option String)
  /-- The references between braces. -/
  | refs (name : Option String) : Loop Ref
  /-- The names of an endpoint behind a dot each. -/
  | dottedNames : Loop String
  /-- The fields of an endpoint behind a comma each. -/
  | moreFields : Loop String
  /-- The values of an enumeration. -/
  | enumValues : Loop EnumValue

/-- Whether a loop goes round once more at a place. -/
def Loop.condition {α : Type} : Loop α → Cursor → Bool
  | .declarations _, c => !c.at? .endOfText
  | .projectEntries, c | .bodyEntries .., c | .indexes, c | .refs _, c | .enumValues, c =>
    !c.at? .closeBrace
  | .columnSettings, c | .settings, c => !c.at? .closeBracket
  | .typeArguments, c => c.next.token.typeArgument?.isSome
  | .keyWords, c => c.next.token.name?.isSome
  | .valueParts, c => c.next.token.valueText?.isSome
  | .indexColumns, c => c.next.token.indexPart?.isSome
  | .dottedNames, c => c.at? .dot && c.second != .openParen
  | .moreFields, c => c.at? .comma

/-- Take the next token, which has to have an image under `f`. -/
def Reader.image {α : Type} (f : Token → Option α) (expected : Expectation) : Reader α := do
  match f (← next).token with
  | some a => skip; return a
  | none => unexpected expected

/-- Read the document of a text. -/
def Reader.document (dialect : Dialect) : Reader Document :=
  return .ofDeclarations (← declarations dialect)

/-- Read a setting and what parts it from the next one. -/
def Reader.parted {α : Type} (setting : Reader α) : Reader α := do
  let s ← setting
  separator
  return s

/-- What reads one round of a loop. A run of tokens is a loop that takes one of them in a round. -/
def Loop.reader {α : Type} : Loop α → Reader α
  | .declarations dialect => Reader.declaration dialect
  | .projectEntries => Reader.projectEntry
  | .bodyEntries dialect injects => Reader.bodyEntry dialect injects
  | .typeArguments => Reader.image Token.typeArgument? .typeArgument
  | .columnSettings => Reader.parted Reader.columnSetting
  | .settings => Reader.parted Reader.setting
  | .keyWords => Reader.image Token.name? .identifier
  | .valueParts => Reader.image Token.valueText? .settingValue
  | .indexes => Reader.index
  | .indexColumns => Reader.image Token.indexPart? .indexColumn
  | .refs name => Reader.listedRef name
  | .dottedNames | .moreFields => do
    Reader.skip
    Reader.name
  | .enumValues => Reader.enumValue

/-! ### Routines -/

/-- What a reader does, one thing after the other. -/
inductive Routine (α : Type) : Type 1 where
  /-- Give a result. -/
  | give (a : α) : Routine α
  /-- Stop with an error. -/
  | stop (error : ParseError) : Routine α
  /-- Go on as the place demands. -/
  | look (next : Cursor → Routine α) : Routine α
  /-- Take the next token, and go on behind it. -/
  | take (next : Routine α) : Routine α
  /-- Go round in a loop, and go on with what its rounds have given. -/
  | loop {β : Type} (l : Loop β) (next : List β → Routine α) : Routine α

namespace Routine

variable {α β : Type}

/-- One routine after the other. -/
def bind : Routine α → (α → Routine β) → Routine β
  | .give a, f => f a
  | .stop error, _ => .stop error
  | .look next, f => .look fun c => (next c).bind f
  | .take next, f => .take (next.bind f)
  | .loop l next, f => .loop l fun as => (next as).bind f

instance : Monad Routine where
  pure := .give
  bind := .bind

/-! ### Tokens -/

/-- Look at the next token. -/
def next : Routine Lexeme :=
  .look fun c => .give c.next

/-- Look at the token after the next one. -/
def second : Routine Token :=
  .look fun c => .give c.second

/-- Take the next token. -/
def skip : Routine Unit :=
  .take (.give ())

/-- Stop, because something else should have stood in place of the next token. -/
def unexpected (expected : Expectation) : Routine α := do
  let found ← next
  .stop (.unexpected found.token expected found.line)

/-- Take the next token, which has to have an image under `f`. -/
def image (f : Token → Option α) (expected : Expectation) : Routine α := do
  match f (← next).token with
  | some a => skip; return a
  | none => unexpected expected

/-- Take the next token, which has to be `t`. -/
def expect (t : Token) (expected : Expectation) : Routine Unit := do
  if (← next).token = t then skip else unexpected expected

/-- Take the next token, which has to be a keyword. -/
def expectKeyword (keyword : String) : Routine Unit := do
  if (← next).token.isKeyword keyword then skip else unexpected (.keyword keyword)

/-- Take a name. -/
def name : Routine String := do
  match (← next).token with
  | .name text => skip; return text
  | _ => unexpected .identifier

/-- Take a text: a name or a string. -/
def text : Routine String := do
  match (← next).token with
  | .name text | .string text => skip; return text
  | _ => unexpected .string

/-- Read something where a condition holds, and nothing elsewhere. -/
def optional (condition : Cursor → Bool) (item : Routine α) : Routine (Option α) :=
  .look fun c => if condition c then some <$> item else pure none

/-- Go round in a loop for the results of its rounds. -/
def many (l : Loop α) : Routine (List α) :=
  .loop l .give

/-- Read the items of a loop between braces. -/
def braced (l : Loop α) : Routine (List α) := do
  expect .openBrace (.mark "\x7b")
  let items ← many l
  expect .closeBrace (.mark "\x7d")
  return items

/-- Read the settings of a loop between brackets. -/
def bracketed (l : Loop α) : Routine (List α) := do
  expect .openBracket (.mark "[")
  let settings ← many l
  expect .closeBracket (.mark "]")
  return settings

/-- Read what parts a setting from the next one: a comma, unless the settings end. -/
def separator : Routine Unit := do
  let t := (← next).token
  if t = .comma then skip
  else if t = .closeBracket then return ()
  else unexpected .nextSetting

/-- Read a setting and what parts it from the next one. -/
def parted (setting : Routine α) : Routine α := do
  let s ← setting
  separator
  return s

/-! ### Settings -/

/-- Read the value of a setting. -/
def settingValue : Routine String := do
  let parts ← many .valueParts
  let value := String.join parts
  let t := (← next).token
  if value ≠ "" ∧ (t = .comma ∨ t = .closeBracket) then return value
  else unexpected .settingValue

/-- Read a colon and a value, where a colon follows. -/
def optionalValue : Routine (Option String) :=
  optional (·.at? .colon) do
    skip
    settingValue

/-- Read a general setting. -/
def setting : Routine Setting := do
  let first ← name
  let others ← many .keyWords
  let value ← optionalValue
  return ⟨" ".intercalate ((first :: others).map Text.lowered), value⟩

/-- Read general settings where they follow on the same line. -/
def settingsOnLine : Routine (List Setting) :=
  return (← optional (fun c => c.continuesLine && c.at? .openBracket) (bracketed .settings)).getD []

/-! ### Columns and endpoints -/

/-- Read a relation. -/
def relation : Routine Relation :=
  image Token.relation? .relation

/-- Read a dot and the fields in parentheses that a reference pairs. -/
def compositeFields : Routine (List String) := do
  skip
  skip
  let first ← name
  let others ← many .moreFields
  expect .closeParen (.mark ")")
  return first :: others

/-- Read an endpoint. -/
def endpoint : Routine Endpoint := do
  let first ← name
  let others ← many .dottedNames
  let composite ← optional (·.at? .dot) compositeFields
  let (path, fields) := match composite with
    | some fields => (first :: others, fields)
    | none => Endpoint.splitField (first :: others)
  match Endpoint.ofPath? path fields with
  | some e => return e
  | none => .look fun c => .stop (.unexpected .dot .shortEndpoint c.lastLine)

/-- Read a dot and a name, where a dot follows. -/
def typeQualifier : Routine String :=
  return (← optional (·.at? .dot) do
    skip
    return "." ++ (← name)).getD ""

/-- Read the arguments of a type, where a parenthesis follows. -/
def typeArguments : Routine String :=
  return (← optional (·.at? .openParen) do
    skip
    let parts ← many .typeArguments
    expect .closeParen .typeArgument
    return "(" ++ ",".intercalate (parts.filterMap id) ++ ")").getD ""

/-- Read the pair of brackets that makes a type an array, where it follows. -/
def typeArray : Routine String :=
  return (← optional (fun c => c.at? .openBracket && c.second == .closeBracket) do
    skip
    skip
    return "[]").getD ""

/-- Read a type. -/
def columnType : Routine String := do
  let base ← name
  let qualifier ← typeQualifier
  let arguments ← typeArguments
  let array ← typeArray
  return base ++ qualifier ++ arguments ++ array

/-- Read one setting of a column. -/
def columnSetting : Routine (Option ColumnSetting) := do
  let head := (← next).token
  if head.isKeyword "pk" then
    skip
    return some .primaryKey
  else if head.isKeyword "primary" then
    skip
    expectKeyword "key"
    return some .primaryKey
  else if head.isKeyword "not" then
    skip
    expectKeyword "null"
    return some .notNull
  else if head.isKeyword "null" then
    skip
    return some .null
  else if head.isKeyword "unique" then
    skip
    return some .unique
  else if head.isKeyword "increment" then
    skip
    return some .increment
  else if head.isKeyword "note" then
    skip
    expect .colon (.mark ":")
    return some (.note (← text))
  else if head.isKeyword "default" then
    skip
    expect .colon (.mark ":")
    return some (.default (← settingValue))
  else if head.isKeyword "ref" then
    skip
    expect .colon (.mark ":")
    let relation ← relation
    let target ← endpoint
    return some (.ref ⟨relation, target⟩)
  else
    let _ ← name
    let _ ← optionalValue
    return none

/-- Read the settings of a column. -/
def columnSettings : Routine (List ColumnSetting) :=
  return (← bracketed .columnSettings).filterMap id

/-- Read a column. -/
def column : Routine Column := do
  let line := (← next).line
  let name ← name
  let type ← optional (fun c => c.continuesLine && c.atName) columnType
  let settings ← optional (fun c => c.continuesLine && c.at? .openBracket) columnSettings
  return ⟨name, type, settings.getD [], line⟩

/-! ### Tables and partials -/

/-- Read the columns of an index: one, or several in parentheses. -/
def indexColumns : Routine (List String) := do
  let t := (← next).token
  if t = .openParen then
    skip
    let parts ← many .indexColumns
    expect .closeParen .indexColumn
    return parts.filterMap id
  else match t.indexColumn? with
    | some column => skip; return [column]
    | none => unexpected .indexColumn

/-- Read an index. -/
def index : Routine Index := do
  let columns ← indexColumns
  let settings ← settingsOnLine
  return {
    columns
    primaryKey := Setting.has settings "pk" || Setting.has settings "primary key"
    unique := Setting.has settings "unique"
    name := (Setting.lastValue settings "name").map unquote }

/-- Read what follows the keyword of a note. -/
def noteBody : Routine String := do
  let t := (← next).token
  if t = .colon then
    skip
    text
  else if t = .openBrace then
    skip
    let note ← text
    expect .closeBrace (.mark "\x7d")
    return note
  else unexpected .note

/-- Stop at a construct that the dialect does not know. -/
def requirePartials (dialect : Dialect) (construct : PartialConstruct) (line : Nat) :
    Routine Unit :=
  if dialect.hasPartials then return () else .stop (.unsupported construct dialect line)

/-- Read an entry in the body of a table or, if `injects` is false, of a partial. -/
def bodyEntry (dialect : Dialect) (injects : Bool) : Routine BodyEntry := do
  let head ← next
  let after ← second
  if head.token = .endOfText then unexpected (.mark "\x7d")
  else if head.token = .tilde then
    if injects then
      requirePartials dialect .injection head.line
      skip
      return .marker (← name) head.line
    else unexpected .partialColumn
  else if head.token.isKeyword "indexes" ∧ after = .openBrace then
    skip
    return .indexes (← braced .indexes)
  else if head.token.isKeyword "note" ∧ (after = .colon ∨ after = .openBrace) then
    skip
    return .note (← noteBody)
  else return .column (← column)

/-- Read a name that may be qualified by a schema. -/
def qualifiedName : Routine (Option String × String) := do
  let first ← name
  match ← optional (·.at? .dot) (do skip; name) with
  | some second => return (some first, second)
  | none => return (none, first)

/-- Read the settings of a table or a partial, where they follow. -/
def headerSettings : Routine (List Setting) :=
  return (← optional (·.at? .openBracket) (bracketed .settings)).getD []

/-- Read a table after its keyword, which stood on line `line`. -/
def table (dialect : Dialect) (line : Nat) : Routine Table := do
  let (schema, name) ← qualifiedName
  let shorthand ← optional (·.next.token.isKeyword "as") (do skip; Routine.name)
  let settings ← headerSettings
  let entries ← braced (.bodyEntries dialect true)
  return {
    schema, name, shorthand, line
    items := BodyEntry.items entries
    indexes := BodyEntry.allIndexes entries
    note := (BodyEntry.lastNote? entries).or ((Setting.lastValue settings "note").map unquote) }

/-- Read a partial after its keyword. -/
def tablePartial (dialect : Dialect) : Routine Partial := do
  let name ← name
  let _ ← headerSettings
  let entries ← braced (.bodyEntries dialect false)
  return {
    name
    columns := (BodyEntry.items entries).filterMap TableItem.column?
    indexes := BodyEntry.allIndexes entries
    note := BodyEntry.lastNote? entries }

/-! ### References, enumerations and projects -/

/-- Read one reference of a declaration with an optional name. -/
def refBody (name : Option String) : Routine Ref := do
  let line := (← next).line
  let left ← optional (·.atName) endpoint
  let relation ← relation
  let right ← optional (fun c => c.continuesLine && c.atName) endpoint
  let settings ← settingsOnLine
  return {
    name, left, relation, right, line
    onDelete := Setting.lastValue settings "delete"
    onUpdate := Setting.lastValue settings "update" }

/-- Read one reference of a list between braces. -/
def listedRef (name : Option String) : Routine Ref := do
  if (← next).token = .endOfText then unexpected (.mark "\x7d") else refBody name

/-- Read references after their keyword: one after a colon, or a list between braces. -/
def refDeclaration : Routine (List Ref) := do
  let name ← optional (·.atName) name
  let t := (← next).token
  if t = .colon then
    skip
    return [← refBody name]
  else if t = .openBrace then braced (.refs name)
  else unexpected .refBody

/-- Read a value of an enumeration. -/
def enumValue : Routine EnumValue := do
  let name ← name
  let settings ← settingsOnLine
  return ⟨name, (Setting.lastValue settings "note").map unquote⟩

/-- Read an enumeration after its keyword. -/
def enumeration : Routine Enumeration := do
  let (schema, name) ← qualifiedName
  let values ← braced .enumValues
  return ⟨schema, name, values⟩

/-- Read an entry in the body of a project. -/
def projectEntry : Routine ProjectEntry := do
  if (← next).token.isKeyword "note" then
    skip
    return .note (← noteBody)
  else
    let key ← name
    expect .colon (.mark ":")
    return .value key (← text)

/-- Read a project after its keyword. -/
def project : Routine Project := do
  let name ← optional (·.atName) name
  let entries ← braced .projectEntries
  return .ofEntries name entries

/-- Read a declaration. -/
def declaration (dialect : Dialect) : Routine Declaration := do
  let head ← next
  if head.token.isKeyword "Project" then
    skip
    return .project (← project)
  else if head.token.isKeyword "TablePartial" then
    requirePartials dialect .declaration head.line
    skip
    return .tablePartial (← tablePartial dialect)
  else if head.token.isKeyword "Table" then
    skip
    return .table (← table dialect head.line)
  else if head.token.isKeyword "Ref" then
    skip
    return .refs (← refDeclaration)
  else if head.token.isKeyword "Enum" then
    skip
    return .enumeration (← enumeration)
  else unexpected .declaration

/-- Read the document of a text. -/
def document (dialect : Dialect) : Routine Document :=
  return .ofDeclarations (← many (.declarations dialect))

end Routine

/-! ### Running routines -/

/-- What is done in one round of a loop. -/
def Loop.routine {α : Type} : Loop α → Routine α
  | .declarations dialect => Routine.declaration dialect
  | .projectEntries => Routine.projectEntry
  | .bodyEntries dialect injects => Routine.bodyEntry dialect injects
  | .typeArguments => Routine.image Token.typeArgument? .typeArgument
  | .columnSettings => Routine.parted Routine.columnSetting
  | .settings => Routine.parted Routine.setting
  | .keyWords => Routine.image Token.name? .identifier
  | .valueParts => Routine.image Token.valueText? .settingValue
  | .indexes => Routine.index
  | .indexColumns => Routine.image Token.indexPart? .indexColumn
  | .refs name => Routine.listedRef name
  | .dottedNames | .moreFields => do
    Routine.skip
    Routine.name
  | .enumValues => Routine.enumValue

/-- **A routine ends**: run from a place, it comes to an outcome after a number of rounds of loops.
A round that stops with an error is counted, and so are the rounds of the loops inside a round. -/
inductive Routine.Ends :
    {α : Type} → Routine α → Cursor → Except ParseError (α × Cursor) → Nat → Prop
  | give {α : Type} {a : α} {c : Cursor} : Ends (.give a) c (.ok (a, c)) 0
  | stop {α : Type} {e : ParseError} {c : Cursor} : Ends (.stop e : Routine α) c (.error e) 0
  | look {α : Type} {next : Cursor → Routine α} {c : Cursor} {o : Except ParseError (α × Cursor)}
    {n : Nat} (h : Ends (next c) c o n) : Ends (.look next) c o n
  | take {α : Type} {next : Routine α} {c : Cursor} {o : Except ParseError (α × Cursor)} {n : Nat}
    (h : Ends next c.moved o n) : Ends (.take next) c o n
  /-- A loop is left where its condition fails. -/
  | left {α β : Type} {l : Loop β} {next : List β → Routine α} {c : Cursor}
    {o : Except ParseError (α × Cursor)} {n : Nat} (hcondition : l.condition c = false)
    (h : Ends (next []) c o n) : Ends (.loop l next) c o n
  /-- Behind a round the loop goes on. -/
  | round {α β : Type} {l : Loop β} {next : List β → Routine α} {c mid : Cursor} {b : β}
    {o : Except ParseError (α × Cursor)} {k n : Nat} (hcondition : l.condition c = true)
    (hround : Ends l.routine c (.ok (b, mid)) k)
    (h : Ends (.loop l fun bs => next (b :: bs)) mid o n) : Ends (.loop l next) c o (k + 1 + n)
  /-- A round that stops with an error stops the loop. -/
  | broken {α β : Type} {l : Loop β} {next : List β → Routine α} {c : Cursor} {e : ParseError}
    {k : Nat} (hcondition : l.condition c = true) (hround : Ends l.routine c (.error e) k) :
    Ends (.loop l next) c (.error e) (k + 1)

end SchemaGraph
