import SchemaGraph.Proofs.Compilable

/-!
# Partials as macros

A partial is shorthand for what could be written out in each table that injects it. Written out, a
table lists the columns of its expansion as its own, with their lines, and behind its own indexes
those of the partials that it injects; no partial is left (`Document.unfolded`). Unless strict mode
asks for every marker to be known, a document that is written out compiles to the same or fails for
the same reason, to the number of each link and the place of each node; all that it no longer does
is to warn of unknown markers (`compile_unfolded`).
-/

namespace SchemaGraph

/-- The indexes that an item of a table brings in: those of the partial that a marker names. -/
def TableItem.injectedIndexes (partials : List Partial) : TableItem → List Index
  | .column _ => []
  | .marker name _ => ((findPartial? partials name).map Partial.indexes).getD []

/-- **A table with its partials written out.** -/
def Table.unfolded (partials : List Partial) (t : Table) : Table :=
  { t with
    items := (t.expansion partials).columns.map TableItem.column
    indexes := t.indexes ++ t.items.flatMap (TableItem.injectedIndexes partials) }

/-- **A document with its partials written out.** -/
def Document.unfolded (d : Document) : Document :=
  { d with
    tables := d.tables.map (Table.unfolded d.partials)
    partials := [] }

/-- What was compiled, without the warnings about unknown markers. -/
def Compiled.withoutUnknown (c : Compiled) : Compiled :=
  { c with warnings := c.warnings.filter fun w => !w.isUnknownPartial }

/-! ### Tables -/

/-- What items bring in by their markers is what the partials have that these name. -/
theorem mem_flatMap_items_iff {α : Type} {partials : List Partial} {brings : TableItem → List α}
    {has : Partial → List α} (hcolumn : ∀ c, brings (.column c) = [])
    (hmarker : ∀ name line,
      brings (.marker name line) = ((findPartial? partials name).map has).getD [])
    {items : List TableItem} {a : α} : a ∈ items.flatMap brings ↔
      ∃ name line p, TableItem.marker name line ∈ items ∧ findPartial? partials name = some p ∧
        a ∈ has p := by
  rw [List.mem_flatMap]
  constructor
  · rintro ⟨item, hitem, ha⟩
    cases item with
    | column c =>
      rw [hcolumn] at ha
      cases ha
    | marker name line =>
      rw [hmarker] at ha
      cases hp : findPartial? partials name with
      | none =>
        rw [hp] at ha
        cases ha
      | some p =>
        rw [hp] at ha
        exact ⟨name, line, p, hitem, hp, ha⟩
  · rintro ⟨name, line, p, hitem, hp, ha⟩
    refine ⟨.marker name line, hitem, ?_⟩
    rw [hmarker, hp]
    exact ha

/-- Columns stand where they are listed. -/
theorem Expansion.foldl_step_columns (partials : List Partial) (e : Expansion) (cs : List Column) :
    (cs.map TableItem.column).foldl (step partials) e = { e with columns := e.columns ++ cs } := by
  induction cs generalizing e with
  | nil => simp
  | cons c cs ih =>
    rw [List.map_cons, List.foldl_cons, ih, step, List.append_assoc, List.singleton_append]

theorem Expansion.indexes_step (partials : List Partial) (e : Expansion) (item : TableItem) :
    (e.step partials item).indexes = e.indexes ++ item.injectedIndexes partials := by
  cases item with
  | column c => simp [step, TableItem.injectedIndexes]
  | marker name line =>
    cases hp : findPartial? partials name with
    | none => simp [step, TableItem.injectedIndexes, hp]
    | some p => simp [step, inject, TableItem.injectedIndexes, hp]

/-- Items bring in their indexes one after the other. -/
theorem Expansion.indexes_foldl_step (partials : List Partial) (e : Expansion)
    (items : List TableItem) : (items.foldl (step partials) e).indexes =
      e.indexes ++ items.flatMap (TableItem.injectedIndexes partials) := by
  induction items generalizing e with
  | nil => simp
  | cons item items ih =>
    rw [List.foldl_cons, ih, indexes_step, List.flatMap_cons, List.append_assoc]

/-- The indexes of an expansion are those of the table, and then those that its items bring in. -/
theorem Table.indexes_expansion (partials : List Partial) (t : Table) :
    (t.expansion partials).indexes =
      t.indexes ++ t.items.flatMap (TableItem.injectedIndexes partials) :=
  Expansion.indexes_foldl_step partials _ t.items

/-- The expansion of a table that is written out. -/
def Expansion.unfolded (partials : List Partial) (e : Expansion) : Expansion :=
  { e with table := e.table.unfolded partials, warnings := [] }

/-- A table that is written out expands to what it expanded to before. Its columns are its own now,
but there is no marker left that could inject one of their names. -/
theorem Table.expansion_unfolded (partials : List Partial) (t : Table) :
    (t.unfolded partials).expansion [] = (t.expansion partials).unfolded partials := by
  have hitems : (t.unfolded partials).items =
      (t.expansion partials).columns.map TableItem.column := rfl
  have hindexes : (t.unfolded partials).indexes = (t.expansion partials).indexes :=
    (t.indexes_expansion partials).symm
  rw [expansion, hitems, Expansion.foldl_step_columns, hindexes, List.nil_append,
    Expansion.unfolded, table_expansion]

/-! ### Documents -/

/-- The tables of a document that is written out expand to what they expanded to before. -/
theorem expandAll_unfolded (d : Document) :
    expandAll false d.unfolded = (expandAll false d).map (List.map (.unfolded d.partials)) := by
  have hid : ∀ t : Table, (t.unfolded d.partials).id = t.id := fun _ => rfl
  refine expandFrom_map hid fun t => ?_
  change expand false [] (t.unfolded d.partials) = _
  rw [expand_lenient, expand_lenient, Table.expansion_unfolded]
  rfl

/-- Expanded tables have the same links when they are written out. -/
theorem Link.all_unfolded (known : Aliases) (refs : List Ref) (partials : List Partial)
    (tables : List Expansion) :
    all known refs (tables.map (.unfolded partials)) = all known refs tables := by
  rw [all, all, List.flatMap_map]
  rfl

/-- Expanded tables are drawn the same when they are written out. -/
theorem ofTables_unfolded (grid : Grid) (partials : List Partial) (tables : List Expansion)
    (outcomes : List LinkOutcome) :
    Diagram.ofTables grid (tables.map (.unfolded partials)) outcomes =
      .ofTables grid tables outcomes := by
  rw [Diagram.ofTables, Diagram.ofTables, List.zipIdx_map, List.map_map]
  rfl

/-- Without the warnings about unknown markers, those about links are left. -/
theorem filter_warnings {partials : List Partial} {declared : List String} {links : List Link}
    {ts : List Table} {outcomes : List LinkOutcome}
    (houtcomes : List.Forall₂ (fun l o => Link.outcome declared l = .ok o) links outcomes) :
    ((ts.map (Table.expansion partials)).flatMap Expansion.warnings ++
        outcomes.filterMap LinkOutcome.warning?).filter (fun w => !w.isUnknownPartial) =
      outcomes.filterMap LinkOutcome.warning? := by
  have htables : ((ts.map (Table.expansion partials)).flatMap Expansion.warnings).filter
      (fun w => !w.isUnknownPartial) = [] := by
    rw [List.filter_eq_nil_iff]
    intro w hw
    simp [isUnknownPartial_of_tables hw]
  have hlinks : (outcomes.filterMap LinkOutcome.warning?).filter (fun w => !w.isUnknownPartial) =
      outcomes.filterMap LinkOutcome.warning? := by
    rw [List.filter_eq_self]
    intro w hw
    simp [isUnknownPartial_of_outcomes houtcomes hw]
  rw [List.filter_append, htables, hlinks, List.nil_append]

/-- **Partials are macros.** A document that is written out compiles to the same, but for the
warnings about unknown markers, or fails for the same reason. -/
theorem compile_unfolded {options : CompileOptions} (hlenient : options.strict = false)
    (d : Document) :
    compile options d.unfolded = (compile options d).map Compiled.withoutUnknown := by
  have haliases : aliases d.unfolded.tables = aliases d.tables :=
    aliases_map (fun _ => rfl) (fun _ => rfl) (fun _ => rfl) (fun _ => rfl)
  have hexpand : expandAll options.strict d.unfolded =
      (expandAll options.strict d).map (List.map (.unfolded d.partials)) := by
    rw [hlenient, expandAll_unfolded]
  -- Both fail where the aliases clash, then where an id is taken, then at the first uneven link.
  cases hknown : aliases d.tables with
  | error e =>
    rw [compile, compile, haliases, hknown]
    rfl
  | ok known =>
    cases htables : expandAll options.strict d with
    | error e =>
      rw [compile, compile, haliases, hknown, hexpand, htables]
      rfl
    | ok tables =>
      rw [htables] at hexpand
      rw [compile_of_expandAll (haliases.trans hknown) hexpand,
        compile_of_expandAll hknown htables]
      have hlinks : Link.all known d.unfolded.refs (tables.map (.unfolded d.partials)) =
          Link.all known d.refs tables := Link.all_unfolded known d.refs d.partials tables
      have hids : (tables.map (Expansion.unfolded d.partials)).map Expansion.id =
          tables.map Expansion.id := List.map_map
      rw [hlinks, hids]
      cases houtcomes : (Link.all known d.refs tables).mapM
          (Link.outcome (tables.map Expansion.id)) with
      | error e => rfl
      | ok outcomes =>
        obtain ⟨rfl, -⟩ := expandAll_eq_ok_iff.mp htables
        have hwarnings : ((d.tables.map (Table.expansion d.partials)).map
            (.unfolded d.partials)).flatMap Expansion.warnings = [] := by
          rw [List.flatMap_eq_nil_iff, List.forall_mem_map]
          exact fun _ _ => rfl
        simp only [Except.map, Compiled.withoutUnknown, ofTables_unfolded, hwarnings,
          List.nil_append, filter_warnings (mapM_eq_ok_iff.mp houtcomes)]

theorem compile_unfolded_library : ({} : CompileOptions).strict = false ∧
    libraryDocument.unfolded.tables.map (fun t => t.columns.map Column.name) =
      [["id", "author"], ["id"]] ∧
    ∃ c, compile {} libraryDocument = .ok c ∧
      c.warnings = [.unknownPartial "public.books" "loans" 4, .danglingRef 11 "public.people"] ∧
      compile {} libraryDocument.unfolded =
        .ok ⟨c.diagram, [.danglingRef 11 "public.people"]⟩ := by
  have hcolumns : libraryDocument.unfolded.tables.map (fun t => t.columns.map Column.name) =
      [["id", "author"], ["id"]] := by
    decide +kernel
  have heval : (compile {} libraryDocument).toOption.map Compiled.warnings =
      some [.unknownPartial "public.books" "loans" 4, .danglingRef 11 "public.people"] := by
    decide +kernel
  obtain ⟨c, hc, hwarnings⟩ := exists_ok_of_map_toOption heval
  refine ⟨rfl, hcolumns, c, hc, hwarnings, ?_⟩
  rw [compile_unfolded rfl libraryDocument, hc, Except.map, Compiled.withoutUnknown, hwarnings]
  rfl

end SchemaGraph
