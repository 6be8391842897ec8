import SchemaGraph.Compile.Link

/-!
# The diagram of a document

Each table is a node at the next place of the grid, each link between declared tables is drawn by
its edges, and each column shows the role that settings, indexes and links give it.
-/

namespace SchemaGraph

/-- A diagram, and what was left out of it. -/
structure Compiled where
  diagram : Diagram
  warnings : List CompileWarning
  deriving DecidableEq, Repr

/-- The type of a column that declares none. -/
def unknownType : String := "unknown"

namespace Expansion

/-- Whether a column belongs to the primary key, by its own setting or by an index. -/
def isPrimary (e : Expansion) (c : Column) : Bool :=
  c.settings.contains .primaryKey
    || e.indexes.any fun i => i.primaryKey && i.columns.contains c.name

/-- Whether a column is unique, by its own setting or by an index over this column alone. -/
def isUnique (e : Expansion) (c : Column) : Bool :=
  c.settings.contains .unique || e.indexes.any fun i => i.unique && i.columns == [c.name]

/-- A column as the node of its table shows it. -/
def nodeColumn (e : Expansion) (foreign : List (String × String)) (c : Column) : NodeColumn where
  name := c.name
  type := c.type.getD unknownType
  role := KeyRole.of? (e.isPrimary c) (foreign.contains (e.id, c.name)) (e.isUnique c)
  note := c.note?

/-- The name that a node shows: the schema is left out where it is the default one. -/
def shownName (e : Expansion) : String :=
  if e.table.schema.getD defaultSchema = defaultSchema then e.table.name else e.id

/-- The node of a table. -/
def node (e : Expansion) (foreign : List (String × String)) (position : Position) : Node where
  id := e.id
  position
  tableName := e.shownName
  columns := e.columns.map (e.nodeColumn foreign)

end Expansion

/-- The diagram of expanded tables and of what became of the links between them. -/
def Diagram.ofTables (grid : Grid) (tables : List Expansion) (outcomes : List LinkOutcome) :
    Diagram :=
  let foreign := outcomes.flatMap LinkOutcome.foreignFields
  { nodes := tables.zipIdx.map fun (t, i) => t.node foreign (grid.position i)
    edges := outcomes.zipIdx.flatMap fun (outcome, i) => outcome.edges i }

/-- The diagram of a document. Aliases are checked first, then the tables in order, then the links
in order. -/
def compile (options : CompileOptions) (d : Document) : Except CompileError Compiled := do
  let known ← aliases d.tables
  let tables ← expandAll options.strict d
  let outcomes ← (Link.all known d.refs tables).mapM (Link.outcome (tables.map Expansion.id))
  return {
    diagram := .ofTables options.grid tables outcomes
    warnings := tables.flatMap Expansion.warnings ++ outcomes.filterMap LinkOutcome.warning? }

end SchemaGraph
