import SchemaGraph.Document.Basic

/-!
# Laying out tables

Tables whose names are all plain identifiers can be laid out without a quote: a line with the
heading and the brace that opens the body, an indented line for each column, and a line with the
brace that closes the body. A table is laid out here with its names alone, and its columns are all
of one type.
-/

namespace SchemaGraph

/-- Whether a character opens a plain identifier: an ASCII letter or an underscore. -/
def opensPlain (c : Char) : Bool :=
  c.isAlpha || c == '_'

/-- Whether a character may stand in a plain identifier. -/
def isPlainChar (c : Char) : Bool :=
  opensPlain c || c.isDigit

/-- Whether a name is a plain identifier. -/
def isPlain (name : String) : Bool :=
  match name.toList with
  | [] => false
  | c :: rest => opensPlain c && rest.all isPlainChar

/-- A plain identifier. -/
structure PlainName where
  text : String
  plain : isPlain text = true
  deriving DecidableEq, Repr

/-- A table whose names are plain identifiers. -/
structure PlainTable where
  schema : Option PlainName
  name : PlainName
  shorthand : Option PlainName
  columns : List PlainName
  deriving DecidableEq, Repr

namespace PlainTable

/-- The schema of a table and a dot, if it has one. -/
def qualifier (t : PlainTable) : String :=
  (t.schema.map (·.text ++ ".")).getD ""

/-- The alias of a table behind its keyword, if it has one. -/
def aliasClause (t : PlainTable) : String :=
  (t.shorthand.map (" as " ++ ·.text)).getD ""

/-- The line with the heading of a table. -/
def heading (t : PlainTable) : String :=
  "Table " ++ t.qualifier ++ t.name.text ++ t.aliasClause ++ " \x7b"

/-- The line of a column. -/
def columnLine (c : PlainName) : String :=
  "  " ++ c.text ++ " int"

/-- The lines of a table. -/
def layoutLines (t : PlainTable) : List String :=
  t.heading :: t.columns.map columnLine ++ ["\x7d"]

/-- The text of tables, one below the other. Every line is ended by a newline. -/
def layout (tables : List PlainTable) : String :=
  String.join ((tables.flatMap layoutLines).map (· ++ "\n"))

/-- The table that is laid out, wherever that is. -/
def table (t : PlainTable) : Table where
  schema := t.schema.map PlainName.text
  name := t.name.text
  shorthand := t.shorthand.map PlainName.text
  items := t.columns.map fun c => .column ⟨c.text, some "int", [], 0⟩
  indexes := []
  note := none
  line := 0

end PlainTable

end SchemaGraph
