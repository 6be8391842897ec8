import SchemaGraph.Diagram.Grid
import SchemaGraph.Document.Basic

/-!
# Compiling a document

The types that the passes of the compilation share: its options, the errors that stop it, and the
warnings about pieces that are left out of the diagram.
-/

namespace SchemaGraph

/-- The options of a compilation. -/
structure CompileOptions where
  /-- Whether a marker of a partial that is not declared is an error. -/
  strict : Bool := false
  grid : Grid := {}
  deriving DecidableEq, Repr

/-- What an alias collides with. -/
inductive AliasClash where
  /-- The alias of another table. -/
  | aliasOf (table : String)
  /-- The name of another table. -/
  | nameOf (table : String)
  deriving DecidableEq, Repr

/-- The wording of a clash. -/
def AliasClash.text : AliasClash → String
  | .aliasOf table => "the alias of " ++ table
  | .nameOf table => "table " ++ table

/-- What keeps a document from having a diagram. -/
inductive CompileError where
  | unknownPartial (table marker : String)
  | duplicateTable (table : String)
  /-- A reference pairs unequally many fields. -/
  | compositeArity (line left right : Nat)
  | aliasConflict (shorthand table : String) (other : AliasClash) (line : Nat)
  deriving DecidableEq, Repr

/-- The wording of an error. -/
def CompileError.message : CompileError → String
  | .unknownPartial table marker => s!"table {table} references unknown partial ~{marker}"
  | .duplicateTable table => s!"table {table} is declared more than once"
  | .compositeArity line left right =>
    s!"ref on line {line} pairs {left} field(s) with {right} field(s)"
  | .aliasConflict shorthand table other line =>
    s!"alias {shorthand} of table {table} on line {line} collides with " ++ other.text

/-- A piece of the document that is left out of the diagram. -/
inductive CompileWarning where
  /-- A reference without one of its ends or its fields. -/
  | incompleteRef (line : Nat)
  | unknownPartial (table marker : String) (line : Nat)
  /-- A reference to a table that is not declared. -/
  | danglingRef (line : Nat) (table : String)
  deriving DecidableEq, Repr

namespace CompileWarning

/-- The line that the warning is about. -/
def line : CompileWarning → Nat
  | .incompleteRef line => line
  | .unknownPartial _ _ line => line
  | .danglingRef line _ => line

/-- The wording of a warning. -/
def message : CompileWarning → String
  | .incompleteRef line => s!"ref on line {line} is missing an endpoint and was skipped"
  | .unknownPartial table marker _ =>
    s!"table {table} references unknown partial ~{marker}; expanded to nothing"
  | .danglingRef line table =>
    s!"ref on line {line} points at unknown table {table} and was dropped"

end CompileWarning

end SchemaGraph
