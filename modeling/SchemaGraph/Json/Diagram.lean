import SchemaGraph.Compile.Compiled
import SchemaGraph.Decimal.Shortest
import SchemaGraph.Json.Basic

/-!
# Diagrams in JSON

Every part of a diagram is a record with a fixed order of fields. The role and the note of a column
are left out where there is none. A coordinate that is not finite is written as `null`.
-/

namespace SchemaGraph

/-- The number of a floating-point value. -/
def Json.ofFloat (x : Float) : Json :=
  ((Numeral.ofFloat? x).map Json.number).getD .null

namespace KeyRole

/-- The name of a role. -/
def name : KeyRole → String
  | .primary => "PK"
  | .foreign => "FK"
  | .unique => "UNIQUE"

/-- The role of a name. -/
def ofName? : String → Option KeyRole
  | "PK" => some .primary
  | "FK" => some .foreign
  | "UNIQUE" => some .unique
  | _ => none

end KeyRole

/-! ### Writing -/

/-- The record of a position. -/
def Position.toJson (p : Position) : Json :=
  .object [("x", .ofFloat p.x), ("y", .ofFloat p.y)]

/-- The record of a column. -/
def NodeColumn.toJson (c : NodeColumn) : Json :=
  .object <|
    [("name", .string c.name), ("type", .string c.type)]
      ++ (c.role.map fun role => ("key", .string role.name)).toList
      ++ (c.note.map fun note => ("note", .string note)).toList

/-- The record of a node. -/
def Node.toJson (n : Node) : Json :=
  .object [("id", .string n.id), ("position", n.position.toJson),
    ("tableName", .string n.tableName), ("columns", .array (n.columns.map NodeColumn.toJson))]

/-- The record of an edge. -/
def Edge.toJson (e : Edge) : Json :=
  .object [("id", .string e.id), ("source", .string e.source), ("target", .string e.target),
    ("sourceHandle", .string e.sourceHandle), ("targetHandle", .string e.targetHandle),
    ("label", .string e.label)]

/-- The record of a diagram together with the messages of its warnings. -/
def Compiled.toJson (c : Compiled) : Json :=
  .object [("nodes", .array (c.diagram.nodes.map Node.toJson)),
    ("edges", .array (c.diagram.edges.map Edge.toJson)),
    ("warnings", .array (c.warnings.map fun w => .string w.message))]

/-! ### Reading -/

namespace Json

/-- A value that may be left out or `null`. -/
def optionalField {α : Type} (read? : Json → Option α) : Option Json → Option (Option α)
  | none | some .null => some none
  | some value => (read? value).map some

end Json

/-- The position of a record. -/
def Position.ofJson? (value : Json) : Option Position := do
  match ← value.fields? ["x", "y"] with
  | [some x, some y] => return ⟨← x.toFloat?, ← y.toFloat?⟩
  | _ => none

/-- The column of a record. -/
def NodeColumn.ofJson? (value : Json) : Option NodeColumn := do
  match ← value.fields? ["name", "type", "key", "note"] with
  | [some name, some type, key, note] =>
    return {
      name := ← name.toString?
      type := ← type.toString?
      role := ← Json.optionalField (fun role => role.toChoice?.bind KeyRole.ofName?) key
      note := ← Json.optionalField Json.toString? note }
  | _ => none

/-- The node of a record. -/
def Node.ofJson? (value : Json) : Option Node := do
  match ← value.fields? ["id", "position", "tableName", "columns"] with
  | [some id, some position, some tableName, some columns] =>
    return {
      id := ← id.toString?
      position := ← Position.ofJson? position
      tableName := ← tableName.toString?
      columns := ← columns.toList? NodeColumn.ofJson? }
  | _ => none

/-- The edge of a record. -/
def Edge.ofJson? (value : Json) : Option Edge := do
  let fields ← value.fields? ["id", "source", "target", "sourceHandle", "targetHandle", "label"]
  match ← fields.mapM (·.bind Json.toString?) with
  | [id, source, target, sourceHandle, targetHandle, label] =>
    return ⟨id, source, target, sourceHandle, targetHandle, label⟩
  | _ => none

/-- The diagram of a record. -/
def Diagram.ofJson? (value : Json) : Option Diagram := do
  match ← value.fields? ["nodes", "edges"] with
  | [some nodes, some edges] =>
    return ⟨← nodes.toList? Node.ofJson?, ← edges.toList? Edge.ofJson?⟩
  | _ => none

end SchemaGraph
