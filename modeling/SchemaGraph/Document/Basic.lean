/-!
# Documents

What a schema text declares: tables with their columns, partials that tables are composed of,
references between columns, enumerations, and a project that describes the whole. Declarations
keep the line on which they stand.
-/

namespace SchemaGraph

/-- How many rows of the two ends of a reference belong together. -/
inductive Relation where
  /-- Written `>`. -/
  | manyToOne
  /-- Written `<`. -/
  | oneToMany
  /-- Written `-`. -/
  | oneToOne
  /-- Written `<>`. -/
  | manyToMany
  deriving DecidableEq, Repr

namespace Relation

/-- Whether the left end holds the foreign key. -/
def leftIsForeign : Relation → Bool
  | .oneToMany => false
  | _ => true

/-- Whether the right end holds the foreign key. -/
def rightIsForeign : Relation → Bool
  | .oneToMany | .manyToMany => true
  | _ => false

end Relation

/-- One end of a reference: a table and some of its fields. A reference to several fields pairs
them with those of the other end. -/
structure Endpoint where
  schema : Option String
  table : String
  fields : List String
  deriving DecidableEq, Repr

/-- A reference that a column declares among its settings, from itself to `target`. -/
structure InlineRef where
  relation : Relation
  target : Endpoint
  deriving DecidableEq, Repr

/-- A setting of a column. -/
inductive ColumnSetting where
  | primaryKey
  | notNull
  | null
  | unique
  | increment
  | note (text : String)
  | default (value : String)
  | ref (reference : InlineRef)
  deriving DecidableEq, Repr

/-- A column of a table or of a partial. -/
structure Column where
  name : String
  type : Option String
  settings : List ColumnSetting
  line : Nat
  deriving DecidableEq, Repr

namespace Column

/-- The text of the first note among the settings. -/
def note? (c : Column) : Option String :=
  c.settings.findSome? fun
    | .note text => some text
    | _ => none

/-- The references among the settings, in order. -/
def inlineRefs (c : Column) : List InlineRef :=
  c.settings.filterMap fun
    | .ref reference => some reference
    | _ => none

end Column

/-- An index over columns or expressions; an expression keeps its backticks. -/
structure Index where
  columns : List String
  primaryKey : Bool
  unique : Bool
  name : Option String
  deriving DecidableEq, Repr

/-- What the body of a table lists: its columns, and the places where partials are injected. -/
inductive TableItem where
  | column (column : Column)
  /-- A marker `~name`. -/
  | marker (name : String) (line : Nat)
  deriving DecidableEq, Repr

/-- The column that an item of a table declares itself. -/
def TableItem.column? : TableItem → Option Column
  | .column c => some c
  | .marker .. => none

/-- A table. -/
structure Table where
  schema : Option String
  name : String
  shorthand : Option String
  items : List TableItem
  indexes : List Index
  note : Option String
  line : Nat
  deriving DecidableEq, Repr

/-- The columns that a table declares itself. -/
def Table.columns (t : Table) : List Column :=
  t.items.filterMap TableItem.column?

/-- A named group of columns and indexes that tables can inject. -/
structure Partial where
  name : String
  columns : List Column
  indexes : List Index
  note : Option String
  deriving DecidableEq, Repr

/-- A declared reference. Either end may be missing. -/
structure Ref where
  name : Option String
  left : Option Endpoint
  relation : Relation
  right : Option Endpoint
  onDelete : Option String
  onUpdate : Option String
  line : Nat
  deriving DecidableEq, Repr

/-- A value of an enumeration. -/
structure EnumValue where
  name : String
  note : Option String
  deriving DecidableEq, Repr

/-- An enumeration of values. -/
structure Enumeration where
  schema : Option String
  name : String
  values : List EnumValue
  deriving DecidableEq, Repr

/-- A description of the whole schema. -/
structure Project where
  name : Option String
  databaseType : Option String
  note : Option String
  deriving DecidableEq, Repr

/-- What a schema text declares, each kind in the order of declaration. -/
structure Document where
  project : Option Project
  tables : List Table
  partials : List Partial
  refs : List Ref
  enums : List Enumeration
  deriving DecidableEq, Repr

/-- The schema of a table that names none. -/
def defaultSchema : String := "public"

/-- The name of a table together with its schema. -/
def qualify (schema : Option String) (name : String) : String :=
  schema.getD defaultSchema ++ "." ++ name

/-- The name that a table goes by across the document. -/
def Table.id (t : Table) : String :=
  qualify t.schema t.name

end SchemaGraph
