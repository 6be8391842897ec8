import SchemaGraph.Document.Basic
import SchemaGraph.OrderedMap

/-!
# Catalogs

A catalog lists the tables of a schema with the names of their columns, and the aliases that
tables have. An alias is looked up like a table once it is resolved.
-/

namespace SchemaGraph

/-- The tables and aliases of a schema. -/
structure Catalog where
  /-- The columns of each table, by its qualified name, and of each resolved alias. -/
  tables : OrderedMap (List String) := ∅
  /-- The qualified name of the table that each alias stands for. -/
  aliases : OrderedMap String := ∅
  deriving DecidableEq

namespace Catalog

/-- The catalog that lists nothing. -/
def empty : Catalog := {}

/-- Whether no table is listed. -/
def isEmpty (c : Catalog) : Bool :=
  c.tables.isEmpty

/-- List a table with its columns. -/
def addTable (c : Catalog) (name : String) (columns : List String) : Catalog :=
  { c with tables := c.tables.insert name columns }

/-- List an alias. -/
def addAlias (c : Catalog) (shorthand table : String) : Catalog :=
  { c with aliases := c.aliases.insert shorthand table }

/-- List one more column of a table that is listed. -/
def addColumn (c : Catalog) (table column : String) : Catalog :=
  { c with tables := c.tables.modify table (· ++ [column]) }

/-- List an alias with the columns of its table, if that is listed. -/
def resolveAlias (c : Catalog) (entry : String × String) : Catalog :=
  match c.tables.get? entry.2 with
  | some columns => c.addTable entry.1 columns
  | none => c

/-- List each alias with the columns of its table. -/
def resolveAliases (c : Catalog) : Catalog :=
  c.aliases.entries.foldl resolveAlias c

/-- The columns of a table or of a resolved alias. -/
def columns? (c : Catalog) (name : String) : Option (List String) :=
  c.tables.get? name

/-- Look a table up: by its listed name, in the default schema, or by an alias. -/
def resolve? (c : Catalog) (name : String) : Option (String × List String) :=
  (name :: qualify none name :: (c.aliases.get? name).toList).findSome? fun key =>
    (c.tables.get? key).map fun columns => (key, columns)

end Catalog

end SchemaGraph
