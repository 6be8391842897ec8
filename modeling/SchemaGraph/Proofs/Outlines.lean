import SchemaGraph.Catalog.Outline
import SchemaGraph.Proofs.Catalogs

/-!
# What an outline is made of

A line of a text does one of three things to its outline: it opens a table under the id of its
heading, and notes an alias if the heading has one; it lists a column of the table that is open; or
it leaves the catalog as it is (`Outline.addLine_cases`). So what is true of an empty catalog and
kept by both is true of the outline of any text, before its aliases are resolved
(`Catalog.outline_invariant`).
-/

namespace SchemaGraph

open Text

namespace OrderedMap

variable {α : Type} {m : OrderedMap α} {name k : String} {change : α → α}

@[simp]
theorem get?_modify : (m.modify name change).get? k =
    if k = name then (m.get? k).map change else m.get? k := by
  unfold modify
  by_cases hk : k = name
  · subst hk
    cases hvalue : m.get? k <;> simp [hvalue]
  · cases m.get? name <;> simp [hk]

@[simp]
theorem names_modify : (m.modify name change).names = m.names := by
  unfold modify
  cases hvalue : m.get? name with
  | none => rfl
  | some value =>
    exact (names_insert m).trans (if_pos (mem_names_iff.mpr ⟨value, hvalue⟩))

end OrderedMap

theorem Catalog.addColumn_addTable (c : Catalog) (table column : String) (columns : List String) :
    (c.addTable table columns).addColumn table column = c.addTable table (columns ++ [column]) := by
  have hvalue : (c.tables.insert table columns).get? table = some columns := by simp
  simp only [addColumn, addTable, OrderedMap.modify, hvalue, OrderedMap.insert_insert]

namespace Outline

/-- What the heading of a table adds to a catalog. -/
def noteHeading (c : Catalog) (h : Heading) : Catalog :=
  ((h.shorthand.map (c.addAlias · h.id)).getD c).addTable h.id []

theorem openTable_eq (o : Outline) (h : Heading) :
    o.openTable h = ⟨noteHeading o.catalog h, some h.id⟩ := by
  unfold openTable noteHeading
  cases h.shorthand <;> rfl

/-- A line opens a table, lists a column or leaves the catalog as it is. -/
theorem addLine_cases (o : Outline) (line : List Char) :
    (∃ h, heading? line = some h ∧ o.addLine line = ⟨noteHeading o.catalog h, some h.id⟩) ∨
    (∃ table column rest, heading? line = none ∧ leadingName? line = some (column, rest) ∧
      o.addLine line = ⟨o.catalog.addColumn table column, some table⟩) ∨
    (o.addLine line).catalog = o.catalog := by
  cases hheading : heading? line with
  | some h =>
    refine .inl ⟨h, rfl, ?_⟩
    rw [addLine, hheading]
    exact openTable_eq o h
  | none =>
    refine .inr ?_
    simp only [addLine, hheading]
    by_cases hbrace : line = ['\x7d']
    · rw [if_pos hbrace]
      exact .inr rfl
    · rw [if_neg hbrace]
      cases hcurrent : o.current with
      | none => exact .inr rfl
      | some table =>
        cases hname : leadingName? line with
        | none => exact .inr rfl
        | some found =>
          obtain ⟨column, rest⟩ := found
          refine .inl ⟨table, column, rest, trivial, rfl, ?_⟩
          obtain ⟨catalog, current⟩ := o
          cases hcurrent
          rfl

end Outline

/-- The outline of some lines, before its aliases are resolved. -/
def Outline.ofLines (lines : List (List Char)) : Outline :=
  lines.foldl (fun o line => o.addLine (trim line)) {}

theorem Catalog.outline_eq (text : String) :
    outline text = (Outline.ofLines (lines text.toList)).catalog.resolveAliases := rfl

/-- What headings and columns keep true of a catalog is true of any outline. -/
theorem Outline.invariant_ofLines {P : Catalog → Prop} {lines : List (List Char)} (hempty : P {})
    (hheading : ∀ c h, P c → P (noteHeading c h))
    (hcolumn : ∀ line ∈ lines, ∀ c table column rest, heading? (trim line) = none →
      leadingName? (trim line) = some (column, rest) → P c → P (c.addColumn table column)) :
    P (ofLines lines).catalog := by
  refine List.foldlRecOn (motive := fun o : Outline => P o.catalog) lines _ hempty ?_
  intro o ho line hline
  rcases o.addLine_cases (trim line) with
    ⟨h, -, heq⟩ | ⟨table, column, rest, hnone, hname, heq⟩ | hsame
  · rw [heq]
    exact hheading _ h ho
  · rw [heq]
    exact hcolumn line hline _ table column rest hnone hname ho
  · rw [hsame]
    exact ho

end SchemaGraph
