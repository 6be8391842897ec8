import SchemaGraph.Text.Word

/-!
# Dialects

The schema language has two dialects. They differ in one point: the newer one has table partials,
which are declared by `TablePartial` and injected into a table by a `~name` marker.
-/

namespace SchemaGraph

/-- The dialects of the schema language. -/
inductive Dialect where
  /-- The language without table partials. -/
  | legacy
  /-- The language with table partials. -/
  | partials
  deriving DecidableEq, Repr

namespace Dialect

/-- The name that a dialect goes by. -/
def name : Dialect → String
  | .legacy => "dbml"
  | .partials => "dbmlv2"

/-- Whether tables may be composed of partials. -/
def hasPartials (d : Dialect) : Bool :=
  d = .partials

/-- The dialect that a name stands for, in any case. -/
def ofName? (name : String) : Option Dialect :=
  let name := Text.lowered name
  if name = "dbml" ∨ name = "dbmlv1" then some .legacy
  else if name = "dbmlv2" ∨ name = "dbml_v2" then some .partials
  else none

/-- A dialect is found again by its own name. -/
theorem ofName?_name (d : Dialect) : ofName? d.name = some d := by
  cases d <;> decide

end Dialect

end SchemaGraph
