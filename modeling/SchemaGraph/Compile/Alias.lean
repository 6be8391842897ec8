import SchemaGraph.Compile.Basic

/-!
# Aliases

A table can have an alias, a short name under which references may call it. An alias is looked
up before the names of tables, so it must not be ambiguous: no two tables share one, and none is
the name of a different table.
-/

namespace SchemaGraph

/-- Aliases with the tables that they stand for, in the order of declaration. -/
abbrev Aliases := List (String × String)

/-- The first table that goes by a name, with or without its schema, and does not stand at
position `own`. -/
def namesake? (tables : List Table) (own : Nat) (name : String) : Option Table :=
  (tables.zipIdx.find? fun (t, i) => i != own && (t.name == name || t.id == name)).map Prod.fst

/-- Add the alias of the table at position `own`, if it has one. -/
def addAlias (tables : List Table) (known : Aliases) (t : Table) (own : Nat) :
    Except CompileError Aliases :=
  match t.shorthand with
  | none => .ok known
  | some shorthand =>
    match known.lookup shorthand with
    | some previous => .error (.aliasConflict shorthand t.id (.aliasOf previous) t.line)
    | none =>
      match namesake? tables own shorthand with
      | some other => .error (.aliasConflict shorthand t.id (.nameOf other.id) t.line)
      | none => .ok (known ++ [(shorthand, t.id)])

/-- The aliases of tables. -/
def aliases (tables : List Table) : Except CompileError Aliases :=
  tables.zipIdx.foldlM (fun known (t, own) => addAlias tables known t own) []

/-- The table that an endpoint means: without a schema an alias comes first. -/
def Endpoint.tableId (known : Aliases) (e : Endpoint) : String :=
  match e.schema, known.lookup e.table with
  | none, some table => table
  | schema, _ => qualify schema e.table

end SchemaGraph
