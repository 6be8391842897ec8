import SchemaGraph.Json.Basic
import SchemaGraph.Session.Basic

/-!
# Settings in JSON

The options of a compilation and the settings of a session are records. A field that is left out
has its default value; one that has a wrong type, `null` included, makes the whole unreadable.
-/

namespace SchemaGraph

namespace Json

/-- A field of a record, or its default value. -/
def fieldOr {α : Type} (default : α) (read? : Json → Option α) : Option Json → Option α
  | none => some default
  | some value => read? value

end Json

/-- The dialect that a value names. -/
def Dialect.ofJson? (value : Json) : Option Dialect := do
  match ← value.toChoice? with
  | "dbml" => some .legacy
  | "dbmlv2" | "dbml_v2" => some .partials
  | _ => none

/-- The options of a compilation. -/
def CompileOptions.ofJson? (value : Json) : Option CompileOptions := do
  match ← value.fields? ["strictGroupResolution", "gridColumns", "spacingX", "spacingY"] with
  | [strict, columns, x, y] =>
    let preset : CompileOptions := {}
    return {
      strict := ← Json.fieldOr preset.strict Json.toBool? strict
      grid := {
        columns := ← Json.fieldOr preset.grid.columns Json.toNat? columns
        spacing := {
          x := ← Json.fieldOr preset.grid.spacing.x Json.toFloat? x
          y := ← Json.fieldOr preset.grid.spacing.y Json.toFloat? y } } }
  | _ => none

/-- The settings of a session. -/
def SessionSettings.ofJson? (value : Json) : Option SessionSettings := do
  match ← value.fields? ["dialect", "compile", "retainUserEdits"] with
  | [dialect, compile, retains] =>
    let preset : SessionSettings := {}
    return {
      dialect := ← Json.fieldOr preset.dialect Dialect.ofJson? dialect
      compile := ← Json.fieldOr preset.compile CompileOptions.ofJson? compile
      retainsEdits := ← Json.fieldOr preset.retainsEdits Json.toBool? retains }
  | _ => none

/-- A connection. -/
def Connection.ofJson? (value : Json) : Option Connection := do
  match ← value.fields? ["source", "sourceHandle", "target", "targetHandle"] with
  | [some source, some sourceHandle, some target, some targetHandle] =>
    return {
      source := ← source.toString?
      sourceHandle := ← sourceHandle.toString?
      target := ← target.toString?
      targetHandle := ← targetHandle.toString? }
  | _ => none

end SchemaGraph
