import SchemaGraph.Compile.Basic

/-!
# Injecting partials

A marker in the body of a table stands for the columns and indexes of a partial. A column that the
table declares itself is never injected. Where several partials provide a column of one name, it
stands where the first of them put it and is defined by the last.
-/

namespace SchemaGraph

/-- A table with its markers replaced by what they stand for. -/
structure Expansion where
  table : Table
  columns : List Column
  indexes : List Index
  /-- What the markers of unknown partials give rise to. -/
  warnings : List CompileWarning
  deriving DecidableEq, Repr

/-- The name that the expanded table goes by across the document. -/
def Expansion.id (e : Expansion) : String :=
  e.table.id

/-- The partial of a given name; of several the last one counts. -/
def findPartial? (partials : List Partial) (name : String) : Option Partial :=
  partials.reverse.find? (·.name == name)

/-- Put a column in the place of the one with its name, or behind the others. -/
def putColumn (c : Column) : List Column → List Column
  | [] => [c]
  | d :: rest => if d.name = c.name then c :: rest else d :: putColumn c rest

/-- Inject a column, unless its name is among the reserved ones. -/
def injectColumn (reserved : List String) (columns : List Column) (c : Column) : List Column :=
  if c.name ∈ reserved then columns else putColumn c columns

/-- Inject the columns and indexes of a partial. -/
def Expansion.inject (e : Expansion) (p : Partial) : Expansion :=
  { e with
    columns := p.columns.foldl (injectColumn (e.table.columns.map Column.name)) e.columns
    indexes := e.indexes ++ p.indexes }

/-- Go on with one item of the table's body. -/
def Expansion.addItem (strict : Bool) (partials : List Partial) (e : Expansion) :
    TableItem → Except CompileError Expansion
  | .column c => .ok { e with columns := e.columns ++ [c] }
  | .marker name line =>
    match findPartial? partials name with
    | some p => .ok (e.inject p)
    | none =>
      if strict then .error (.unknownPartial e.id name)
      else .ok { e with warnings := e.warnings ++ [.unknownPartial e.id name line] }

/-- Expand a table. -/
def expand (strict : Bool) (partials : List Partial) (t : Table) : Except CompileError Expansion :=
  t.items.foldlM (Expansion.addItem strict partials) ⟨t, [], t.indexes, []⟩

/-- Expand tables, none of which may go by a name that is taken. -/
def expandFrom (strict : Bool) (partials : List Partial) :
    List String → List Table → Except CompileError (List Expansion)
  | _, [] => .ok []
  | taken, t :: rest => do
    if t.id ∈ taken then throw (.duplicateTable t.id)
    let first ← expand strict partials t
    let others ← expandFrom strict partials (t.id :: taken) rest
    return first :: others

/-- Expand the tables of a document. -/
def expandAll (strict : Bool) (d : Document) : Except CompileError (List Expansion) :=
  expandFrom strict d.partials [] d.tables

end SchemaGraph
