import SchemaGraph.Document.Lines
import SchemaGraph.Grammar.Declaration

/-!
# Declarations on other lines

A document is put together from declarations, and a declaration from the entries of its body. What
they declare does not depend on the lines on which they stand, so that a document on other lines is
put together from the same declarations on other lines (`Document.ofDeclarations_mapLines`).
-/

namespace SchemaGraph

/-- An entry on another line. -/
def BodyEntry.mapLine (f : Nat → Nat) : BodyEntry → BodyEntry
  | .column c => .column (c.mapLine f)
  | .marker name line => .marker name (f line)
  | entry => entry

/-- A declaration on other lines. -/
def Declaration.mapLines (f : Nat → Nat) : Declaration → Declaration
  | .tablePartial p => .tablePartial (p.mapLines f)
  | .table t => .table (t.mapLines f)
  | .refs rs => .refs (rs.map (·.mapLine f))
  | declared => declared

/-! ### The same lines -/

theorem TableItem.mapLine_same (item : TableItem) : item.mapLine (fun line => line) = item := by
  cases item <;> rfl

theorem Table.mapLines_same (t : Table) : t.mapLines (fun line => line) = t := by
  simp [Table.mapLines, TableItem.mapLine_same]

theorem Partial.mapLines_same (p : Partial) : p.mapLines (fun line => line) = p := by
  simp [Partial.mapLines, Column.mapLine]

theorem Declaration.mapLines_same (declared : Declaration) :
    declared.mapLines (fun line => line) = declared := by
  cases declared with
  | table t => exact congrArg Declaration.table t.mapLines_same
  | tablePartial p => exact congrArg Declaration.tablePartial p.mapLines_same
  | refs rs => simp [mapLines, Ref.mapLine]
  | project | enumeration => rfl

/-! ### Other lines -/

variable (f : Nat → Nat)

namespace BodyEntry

theorem items_mapLine (entries : List BodyEntry) :
    items (entries.map (·.mapLine f)) = (items entries).map (·.mapLine f) := by
  unfold items
  rw [List.filterMap_map, List.map_filterMap]
  congr 1
  funext entry
  cases entry <;> rfl

theorem allIndexes_mapLine (entries : List BodyEntry) :
    allIndexes (entries.map (·.mapLine f)) = allIndexes entries := by
  unfold allIndexes
  rw [List.flatMap_map]
  congr 1
  funext entry
  cases entry <;> rfl

theorem lastNote?_mapLine (entries : List BodyEntry) :
    lastNote? (entries.map (·.mapLine f)) = lastNote? entries := by
  have hnote : note? ∘ mapLine f = note? := by
    funext entry
    cases entry <;> rfl
  unfold lastNote?
  rw [← List.map_reverse, List.findSome?_map, hnote]

end BodyEntry

theorem filterMap_column?_mapLine (items : List TableItem) :
    (items.map (·.mapLine f)).filterMap TableItem.column? =
      (items.filterMap TableItem.column?).map (·.mapLine f) := by
  rw [List.filterMap_map, List.map_filterMap]
  congr 1
  funext item
  cases item <;> rfl

/-- A document on other lines is put together from declarations on other lines. -/
theorem Document.ofDeclarations_mapLines (declared : List Declaration) :
    ofDeclarations (declared.map (·.mapLines f)) = (ofDeclarations declared).mapLines f := by
  have hproject : Declaration.project? ∘ Declaration.mapLines f = Declaration.project? := by
    funext d
    cases d <;> rfl
  have htable : ∀ d : Declaration, (d.mapLines f).table? = d.table?.map (·.mapLines f) := by
    intro d
    cases d <;> rfl
  have hpartial : ∀ d : Declaration,
      (d.mapLines f).tablePartial? = d.tablePartial?.map (·.mapLines f) := by
    intro d
    cases d <;> rfl
  have hrefs : ∀ d : Declaration, (d.mapLines f).refList = d.refList.map (·.mapLine f) := by
    intro d
    cases d <;> rfl
  have henum : ∀ d : Declaration, (d.mapLines f).enumeration? = d.enumeration? := by
    intro d
    cases d <;> rfl
  simp only [ofDeclarations, mapLines, List.filterMap_map, List.map_filterMap, List.flatMap_map,
    List.map_flatMap, ← List.map_reverse, List.findSome?_map, hproject, Function.comp_def, htable,
    hpartial, hrefs, henum]

end SchemaGraph
