import SchemaGraph.Document.Basic

/-!
# Where documents stand

A document keeps the lines on which its declarations stand. The same declarations can stand
elsewhere, behind other text, without meaning anything else.
-/

namespace SchemaGraph

/-- A column on another line. -/
def Column.mapLine (f : Nat → Nat) (c : Column) : Column :=
  { c with line := f c.line }

/-- An item of a table on another line. -/
def TableItem.mapLine (f : Nat → Nat) : TableItem → TableItem
  | .column c => .column (c.mapLine f)
  | .marker name line => .marker name (f line)

/-- A table on other lines. -/
def Table.mapLines (f : Nat → Nat) (t : Table) : Table :=
  { t with items := t.items.map (·.mapLine f), line := f t.line }

/-- A partial on other lines. -/
def Partial.mapLines (f : Nat → Nat) (p : Partial) : Partial :=
  { p with columns := p.columns.map (·.mapLine f) }

/-- A reference on another line. -/
def Ref.mapLine (f : Nat → Nat) (r : Ref) : Ref :=
  { r with line := f r.line }

/-- A document on other lines. -/
def Document.mapLines (f : Nat → Nat) (d : Document) : Document :=
  { d with
    tables := d.tables.map (·.mapLines f)
    partials := d.partials.map (·.mapLines f)
    refs := d.refs.map (·.mapLine f) }

/-! ### The lines that are kept -/

/-- The line that an item of a table keeps. -/
def TableItem.line : TableItem → Nat
  | .column c => c.line
  | .marker _ line => line

/-- The lines that a table keeps: its own and those of its items. -/
def Table.keptLines (t : Table) : List Nat :=
  t.line :: t.items.map TableItem.line

/-- The lines that a partial keeps. -/
def Partial.keptLines (p : Partial) : List Nat :=
  p.columns.map Column.line

/-- The lines that a document keeps. -/
def Document.keptLines (d : Document) : List Nat :=
  d.tables.flatMap Table.keptLines ++ d.partials.flatMap Partial.keptLines ++ d.refs.map Ref.line

end SchemaGraph
