import SchemaGraph.Grammar.Column

/-!
# Declarations

A document is a sequence of declarations, each opened by its keyword. A declaration with a body
lists entries between braces, and what the declaration means is put together from those entries
after they are read.
-/

namespace SchemaGraph

/-! ### Entries -/

/-- An entry in the body of a table or of a partial. -/
inductive BodyEntry where
  | column (column : Column)
  | marker (name : String) (line : Nat)
  | indexes (indexes : List Index)
  | note (text : String)
  deriving DecidableEq, Repr

namespace BodyEntry

/-- The item of a table that an entry is. -/
def item? : BodyEntry → Option TableItem
  | .column c => some (.column c)
  | .marker name line => some (.marker name line)
  | _ => none

/-- The indexes that an entry lists. -/
def indexList : BodyEntry → List Index
  | .indexes listed => listed
  | _ => []

/-- The text of an entry that is a note. -/
def note? : BodyEntry → Option String
  | .note text => some text
  | _ => none

/-- The items among entries. -/
def items (entries : List BodyEntry) : List TableItem :=
  entries.filterMap item?

/-- The indexes among entries. -/
def allIndexes (entries : List BodyEntry) : List Index :=
  entries.flatMap indexList

/-- The last note among entries. -/
def lastNote? (entries : List BodyEntry) : Option String :=
  entries.reverse.findSome? note?

end BodyEntry

/-- An entry in the body of a project. -/
inductive ProjectEntry where
  | note (text : String)
  | value (key value : String)
  deriving DecidableEq, Repr

/-- The project with a name and some entries. Of two entries of a kind the later one counts. -/
def Project.ofEntries (name : Option String) (entries : List ProjectEntry) : Project where
  name
  databaseType := entries.reverse.findSome? fun
    | .value key value => if Text.sameWord key "database_type" then some value else none
    | .note _ => none
  note := entries.reverse.findSome? fun
    | .note text => some text
    | .value .. => none

/-- A declaration. One keyword can declare several references. -/
inductive Declaration where
  | project (project : Project)
  | tablePartial (group : Partial)
  | table (table : Table)
  | refs (refs : List Ref)
  | enumeration (enumeration : Enumeration)
  deriving DecidableEq, Repr

namespace Declaration

/-- The project that a declaration declares. -/
def project? : Declaration → Option Project
  | .project p => some p
  | _ => none

/-- The table that a declaration declares. -/
def table? : Declaration → Option Table
  | .table t => some t
  | _ => none

/-- The partial that a declaration declares. -/
def tablePartial? : Declaration → Option Partial
  | .tablePartial p => some p
  | _ => none

/-- The references that a declaration declares. -/
def refList : Declaration → List Ref
  | .refs rs => rs
  | _ => []

/-- The enumeration that a declaration declares. -/
def enumeration? : Declaration → Option Enumeration
  | .enumeration e => some e
  | _ => none

end Declaration

/-- The document that declarations make up. Of several projects the last one counts. -/
def Document.ofDeclarations (declarations : List Declaration) : Document where
  project := declarations.reverse.findSome? Declaration.project?
  tables := declarations.filterMap Declaration.table?
  partials := declarations.filterMap Declaration.tablePartial?
  refs := declarations.flatMap Declaration.refList
  enums := declarations.filterMap Declaration.enumeration?

/-! ### Indexes -/

/-- The column or expression of an index that a token names. -/
def Token.indexColumn? : Token → Option String
  | .name text => some text
  | .expression text => some ("\x60" ++ text ++ "\x60")
  | _ => none

/-- What a token contributes to the columns of an index: a comma contributes nothing. -/
def Token.indexPart? : Token → Option (Option String)
  | .comma => some none
  | t => t.indexColumn?.map some

namespace Reader

/-- Read the columns of an index: one, or several in parentheses. -/
def indexColumns : Reader (List String) := do
  let t := (← next).token
  if t = .openParen then
    skip
    let parts ← run Token.indexPart?
    expect .closeParen .indexColumn
    return parts.filterMap id
  else match t.indexColumn? with
    | some column => skip; return [column]
    | none => unexpected .indexColumn

/-- Read an index. -/
def index : Reader Index := do
  let columns ← indexColumns
  let settings ← settingsOnLine
  return {
    columns
    primaryKey := Setting.has settings "pk" || Setting.has settings "primary key"
    unique := Setting.has settings "unique"
    name := (Setting.lastValue settings "name").map unquote }

/-! ### Tables and partials -/

/-- Read what follows the keyword of a note. -/
def noteBody : Reader String := do
  let t := (← next).token
  if t = .colon then
    skip
    text
  else if t = .openBrace then
    skip
    let note ← text
    expect .closeBrace (.mark "\x7d")
    return note
  else unexpected .note

/-- Stop at a construct that the dialect does not know. -/
def requirePartials (dialect : Dialect) (construct : PartialConstruct) (line : Nat) :
    Reader Unit :=
  if dialect.hasPartials then return () else throw (.unsupported construct dialect line)

/-- Read an entry in the body of a table or, if `injects` is false, of a partial. Two keywords open
an entry of their own only before the marks that such an entry goes on with, and name a column
otherwise. -/
def bodyEntry (dialect : Dialect) (injects : Bool) : Reader BodyEntry := do
  let head ← next
  let after ← second
  if head.token = .endOfText then unexpected (.mark "\x7d")
  else if head.token = .tilde then
    if injects then
      requirePartials dialect .injection head.line
      skip
      return .marker (← name) head.line
    else unexpected .partialColumn
  else if head.token.isKeyword "indexes" ∧ after = .openBrace then
    skip
    return .indexes (← braced index)
  else if head.token.isKeyword "note" ∧ (after = .colon ∨ after = .openBrace) then
    skip
    return .note (← noteBody)
  else return .column (← column)

/-- Read a name that may be qualified by a schema. -/
def qualifiedName : Reader (Option String × String) := do
  let first ← name
  match ← optional (·.at? .dot) (do skip; name) with
  | some second => return (some first, second)
  | none => return (none, first)

/-- Read the settings of a table or a partial, where they follow. -/
def headerSettings : Reader (List Setting) :=
  return (← optional (·.at? .openBracket) settings).getD []

/-- Read a table after its keyword, which stood on line `line`. -/
def table (dialect : Dialect) (line : Nat) : Reader Table := do
  let (schema, name) ← qualifiedName
  let shorthand ← optional (·.next.token.isKeyword "as") (do skip; Reader.name)
  let settings ← headerSettings
  let entries ← braced (bodyEntry dialect true)
  return {
    schema, name, shorthand, line
    items := BodyEntry.items entries
    indexes := BodyEntry.allIndexes entries
    note := (BodyEntry.lastNote? entries).or ((Setting.lastValue settings "note").map unquote) }

/-- Read a partial after its keyword. -/
def tablePartial (dialect : Dialect) : Reader Partial := do
  let name ← name
  let _ ← headerSettings
  let entries ← braced (bodyEntry dialect false)
  return {
    name
    columns := (BodyEntry.items entries).filterMap TableItem.column?
    indexes := BodyEntry.allIndexes entries
    note := BodyEntry.lastNote? entries }

/-! ### References, enumerations and projects -/

/-- Read one reference of a declaration with an optional name. Only the relation has to be there;
the right end and the settings have to follow on the same line. -/
def refBody (name : Option String) : Reader Ref := do
  let line := (← next).line
  let left ← optional (·.atName) endpoint
  let relation ← relation
  let right ← optional (fun c => c.continuesLine && c.atName) endpoint
  let settings ← settingsOnLine
  return {
    name, left, relation, right, line
    onDelete := Setting.lastValue settings "delete"
    onUpdate := Setting.lastValue settings "update" }

/-- Read one reference of a list between braces. -/
def listedRef (name : Option String) : Reader Ref := do
  if (← next).token = .endOfText then unexpected (.mark "\x7d") else refBody name

/-- Read references after their keyword: one after a colon, or a list between braces. -/
def refDeclaration : Reader (List Ref) := do
  let name ← optional (·.atName) name
  let t := (← next).token
  if t = .colon then
    skip
    return [← refBody name]
  else if t = .openBrace then braced (listedRef name)
  else unexpected .refBody

/-- Read a value of an enumeration. -/
def enumValue : Reader EnumValue := do
  let name ← name
  let settings ← settingsOnLine
  return ⟨name, (Setting.lastValue settings "note").map unquote⟩

/-- Read an enumeration after its keyword. -/
def enumeration : Reader Enumeration := do
  let (schema, name) ← qualifiedName
  let values ← braced enumValue
  return ⟨schema, name, values⟩

/-- Read an entry in the body of a project. -/
def projectEntry : Reader ProjectEntry := do
  if (← next).token.isKeyword "note" then
    skip
    return .note (← noteBody)
  else
    let key ← name
    expect .colon (.mark ":")
    return .value key (← text)

/-- Read a project after its keyword. -/
def project : Reader Project := do
  let name ← optional (·.atName) name
  let entries ← braced projectEntry
  return .ofEntries name entries

/-- Read a declaration. -/
def declaration (dialect : Dialect) : Reader Declaration := do
  let head ← next
  if head.token.isKeyword "Project" then
    skip
    return .project (← project)
  else if head.token.isKeyword "TablePartial" then
    requirePartials dialect .declaration head.line
    skip
    return .tablePartial (← tablePartial dialect)
  else if head.token.isKeyword "Table" then
    skip
    return .table (← table dialect head.line)
  else if head.token.isKeyword "Ref" then
    skip
    return .refs (← refDeclaration)
  else if head.token.isKeyword "Enum" then
    skip
    return .enumeration (← enumeration)
  else unexpected .declaration

/-- Read declarations up to the end of the text. -/
def declarations (dialect : Dialect) : Reader (List Declaration) :=
  manyUntil .endOfText (declaration dialect)

end Reader

/-- The document that a list of tokens makes up. -/
def Document.ofLexemes (dialect : Dialect) (lexemes : List Lexeme) : Except ParseError Document :=
  return .ofDeclarations ((← Reader.declarations dialect ⟨lexemes, 1⟩).1)

/-- The document that a text declares. -/
def Document.parse (dialect : Dialect) (text : String) : Except ParseError Document := do
  let lexemes ← (scan text).mapError .scan
  Document.ofLexemes dialect lexemes

end SchemaGraph
