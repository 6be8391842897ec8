import SchemaGraph.Proofs.Relationships
import SchemaGraph.Proofs.SoundDiagrams
import SchemaGraph.Proofs.Unfolding

/-!
# Roles of columns

A node shows of each column the part that it plays in its table: in the primary key, in a foreign
key, or as a unique column. What makes a column play a part is spread over the document. Its
settings and the indexes of its table say so, and the indexes of the partials that the table
injects; a foreign key is said by a reference, which may be declared anywhere and call the table by
an alias. The role that is shown follows from these sources and the precedence among them, and from
nothing else (`column_roles`). A reference marks the fields of its foreign side only if it is drawn,
and then all of them. Every relation has a foreign side, so that a compiled edge has an end at which
no column stands but one of a key.
-/

namespace SchemaGraph

/-! ### What makes a column play a part -/

namespace Table

/-- An index is over a table: the table declares it, or a partial that the table injects does. -/
def HasIndex (partials : List Partial) (t : Table) (i : Index) : Prop :=
  i ∈ t.indexes ∨ ∃ name line p, TableItem.marker name line ∈ t.items ∧
    findPartial? partials name = some p ∧ i ∈ p.indexes

/-- **A column is in the primary key** by its own setting or by an index over any number of columns,
itself among them. -/
def MakesPrimary (partials : List Partial) (t : Table) (c : Column) : Prop :=
  .primaryKey ∈ c.settings ∨
    ∃ i, t.HasIndex partials i ∧ i.primaryKey = true ∧ c.name ∈ i.columns

/-- **A column is unique** by its own setting or by an index over this column alone. -/
def MakesUnique (partials : List Partial) (t : Table) (c : Column) : Prop :=
  .unique ∈ c.settings ∨ ∃ i, t.HasIndex partials i ∧ i.unique = true ∧ i.columns = [c.name]

variable {partials : List Partial} {t : Table}

theorem mem_indexes_expansion {i : Index} :
    i ∈ (t.expansion partials).indexes ↔ t.HasIndex partials i := by
  rw [indexes_expansion, List.mem_append, HasIndex]
  exact or_congr_right (mem_flatMap_items_iff (fun _ => rfl) fun _ _ => rfl)

theorem isPrimary_expansion {c : Column} :
    (t.expansion partials).isPrimary c = true ↔ t.MakesPrimary partials c := by
  simp only [Expansion.isPrimary, MakesPrimary, Bool.or_eq_true, List.contains_iff_mem,
    List.any_eq_true, Bool.and_eq_true, mem_indexes_expansion]

theorem isUnique_expansion {c : Column} :
    (t.expansion partials).isUnique c = true ↔ t.MakesUnique partials c := by
  simp only [Expansion.isUnique, MakesUnique, Bool.or_eq_true, List.contains_iff_mem,
    List.any_eq_true, Bool.and_eq_true, beq_iff_eq, mem_indexes_expansion]

end Table

/-- **A link makes a field a foreign key**: the field is named at a foreign side. Written `>` or `-`
the left side is foreign, written `<` the right one, and written `<>` both are. -/
inductive Link.MakesForeign (l : Link) (table field : String) : Prop
  | left {tip : LinkEnd} (hend : l.left = some tip)
    (hrelation : l.relation = .manyToOne ∨ l.relation = .oneToOne ∨ l.relation = .manyToMany)
    (htable : tip.table = table) (hfield : field ∈ tip.fields)
  | right {tip : LinkEnd} (hend : l.right = some tip)
    (hrelation : l.relation = .oneToMany ∨ l.relation = .manyToMany)
    (htable : tip.table = table) (hfield : field ∈ tip.fields)

/-- A field is a foreign key by the links of a document: one of them that is drawn makes it one. -/
def Document.MakesForeign (d : Document) (table field : String) : Prop :=
  ∃ l ∈ Link.all (declaredAliases d.tables) d.refs (d.tables.map (Table.expansion d.partials)),
    l.Emits (d.tables.map Table.id) ∧ l.MakesForeign table field

theorem Relation.leftIsForeign_iff {r : Relation} : r.leftIsForeign = true ↔
    r = .manyToOne ∨ r = .oneToOne ∨ r = .manyToMany := by
  cases r <;> decide

theorem Relation.rightIsForeign_iff {r : Relation} : r.rightIsForeign = true ↔
    r = .oneToMany ∨ r = .manyToMany := by
  cases r <;> decide

section Links

variable {declared : List String} {table field : String}

theorem LinkOutcome.mem_foreignFields_drawn {relation : Relation} {left right : LinkEnd} :
    (table, field) ∈ (LinkOutcome.drawn relation left right).foreignFields ↔
      (relation.leftIsForeign = true ∧ left.table = table ∧ field ∈ left.fields) ∨
        (relation.rightIsForeign = true ∧ right.table = table ∧ field ∈ right.fields) := by
  have hside : ∀ (foreign : Bool) (tip : LinkEnd),
      (table, field) ∈ (if foreign = true then tip.fields.map (tip.table, ·) else []) ↔
        foreign = true ∧ tip.table = table ∧ field ∈ tip.fields := by
    intro foreign tip
    cases foreign <;> simp [and_comm]
  rw [foreignFields, List.mem_append, hside, hside]

theorem Link.makesForeign_iff {l : Link} {left right : LinkEnd} (hl : l.left = some left)
    (hr : l.right = some right) : l.MakesForeign table field ↔
      (l.relation.leftIsForeign = true ∧ left.table = table ∧ field ∈ left.fields) ∨
        (l.relation.rightIsForeign = true ∧ right.table = table ∧ field ∈ right.fields) := by
  rw [Relation.leftIsForeign_iff, Relation.rightIsForeign_iff]
  constructor
  · rintro (⟨hend, hrelation, htable, hfield⟩ | ⟨hend, hrelation, htable, hfield⟩)
    · cases hl.symm.trans hend
      exact .inl ⟨hrelation, htable, hfield⟩
    · cases hr.symm.trans hend
      exact .inr ⟨hrelation, htable, hfield⟩
  · rintro (⟨hrelation, htable, hfield⟩ | ⟨hrelation, htable, hfield⟩)
    · exact .left hl hrelation htable hfield
    · exact .right hr hrelation htable hfield

/-- What becomes of a link marks the fields of its foreign sides if the link is drawn, and nothing
otherwise. -/
theorem Link.mem_foreignFields_iff {l : Link} {o : LinkOutcome} (h : l.outcome declared = .ok o) :
    (table, field) ∈ o.foreignFields ↔ l.Emits declared ∧ l.MakesForeign table field := by
  rcases outcome_cases h with ⟨hnone, rfl⟩ | ⟨left, right, hends, -, hcase⟩
  · refine iff_of_false List.not_mem_nil ?_
    rintro ⟨⟨left, right, hl, hr, hfl, hfr, -⟩, -⟩
    rw [ends?_eq_some_iff.mpr ⟨hl, hr, hfl, hfr⟩] at hnone
    cases hnone
  · obtain ⟨hl, hr, hfl, hfr⟩ := ends?_eq_some_iff.mp hends
    rw [emits_iff hl hr]
    rcases hcase with ⟨hleft, rfl⟩ | ⟨-, hright, rfl⟩ | ⟨hleft, hright, rfl⟩
    · exact iff_of_false List.not_mem_nil fun h => hleft h.1.2.2.1
    · exact iff_of_false List.not_mem_nil fun h => hright h.1.2.2.2
    · rw [LinkOutcome.mem_foreignFields_drawn, makesForeign_iff hl hr]
      exact (and_iff_right ⟨hfl, hfr, hleft, hright⟩).symm

/-- The links that are drawn mark the fields of their foreign sides. -/
theorem mem_flatMap_foreignFields {links : List Link} {outcomes : List LinkOutcome}
    (h : List.Forall₂ (fun l o => Link.outcome declared l = .ok o) links outcomes) :
    (table, field) ∈ outcomes.flatMap LinkOutcome.foreignFields ↔
      ∃ l ∈ links, l.Emits declared ∧ l.MakesForeign table field := by
  rw [List.mem_flatMap]
  constructor
  · rintro ⟨o, ho, hmem⟩
    obtain ⟨l, hl, hlo⟩ := exists_mem_of_forall₂ h ho
    exact ⟨l, hl, (Link.mem_foreignFields_iff hlo).mp hmem⟩
  · rintro ⟨l, hl, hforeign⟩
    obtain ⟨o, ho, hlo⟩ := exists_mem_of_forall₂ h.flip hl
    exact ⟨o, ho, (Link.mem_foreignFields_iff hlo).mpr hforeign⟩

end Links

/-! ### Precedence -/

/-- **A role follows** from the parts that a column plays: the primary key comes first, then a
foreign key, then a unique column. -/
structure KeyRole.Follows (role : Option KeyRole) (isPrimary isForeign isUnique : Prop) : Prop where
  primary : role = some .primary ↔ isPrimary
  foreign : ¬ isPrimary → (role = some .foreign ↔ isForeign)
  unique : ¬ isPrimary → ¬ isForeign → (role = some .unique ↔ isUnique)
  none : ¬ isPrimary → ¬ isForeign → ¬ isUnique → role = none

theorem KeyRole.follows_of? {primary foreign unique : Bool} {isPrimary isForeign isUnique : Prop}
    (hprimary : primary = true ↔ isPrimary) (hforeign : foreign = true ↔ isForeign)
    (hunique : unique = true ↔ isUnique) :
    Follows (of? primary foreign unique) isPrimary isForeign isUnique := by
  rw [← propext hprimary, ← propext hforeign, ← propext hunique]
  cases primary <;> cases foreign <;> cases unique <;> constructor <;> decide

/-- A column that is in a foreign key shows that it is in a key. -/
theorem KeyRole.Follows.of_foreign {role : Option KeyRole} {isPrimary isForeign isUnique : Prop}
    (h : Follows role isPrimary isForeign isUnique) (hforeign : isForeign) :
    role = some .primary ∨ role = some .foreign := by
  by_cases hprimary : isPrimary
  · exact .inl (h.primary.mpr hprimary)
  · exact .inr ((h.foreign hprimary).mpr hforeign)

/-! ### What is shown -/

/-- **A column shows its role**: it goes by its own name, and its role follows from the settings and
indexes of its table and from the links of the document. -/
structure Document.ShowsRole (d : Document) (t : Table) (c : Column) (shown : NodeColumn) :
    Prop where
  name : shown.name = c.name
  role : KeyRole.Follows shown.role (t.MakesPrimary d.partials c) (d.MakesForeign t.id c.name)
    (t.MakesUnique d.partials c)

/-- Whatever a diagram shows of a field is in a key. -/
def Diagram.OnlyKeysAt (d : Diagram) (node field : String) : Prop :=
  ∀ n ∈ d.nodes, n.id = node → ∀ c ∈ n.columns, c.name = field →
    c.role = some .primary ∨ c.role = some .foreign

/-- **A diagram shows the roles that its document implies.** -/
structure Document.ShowsRoles (d : Document) (diagram : Diagram) : Prop where
  /-- The nodes are those of the tables, and their columns those of the expanded tables, each of
  which shows its role. -/
  columns : List.Forall₂ (fun t n => n.id = t.id ∧
    List.Forall₂ (d.ShowsRole t) (t.expansion d.partials).columns n.columns) d.tables diagram.nodes
  /-- An edge has an end at which no column stands but one of a key. -/
  edges : ∀ e ∈ diagram.edges, diagram.OnlyKeysAt e.source e.sourceField ∨
    diagram.OnlyKeysAt e.target e.targetField

/-- A column of an expanded table shows its role, if the fields are marked that the links of the
document make foreign keys. -/
theorem Document.showsRole_nodeColumn {d : Document} {t : Table} {foreign : List (String × String)}
    (hforeign : ∀ table field, (table, field) ∈ foreign ↔ d.MakesForeign table field)
    (c : Column) : d.ShowsRole t c ((t.expansion d.partials).nodeColumn foreign c) where
  name := rfl
  role := by
    have hmark : foreign.contains ((t.expansion d.partials).id, c.name) = true ↔
        d.MakesForeign t.id c.name := by
      rw [List.contains_iff_mem, Table.id_expansion, hforeign]
    exact KeyRole.follows_of? Table.isPrimary_expansion hmark Table.isUnique_expansion

/-- Where columns show their roles, a field that a link makes a foreign key is in a key. -/
theorem Document.onlyKeysAt_of_makesForeign {d : Document} {diagram : Diagram}
    (hcolumns : List.Forall₂ (fun t n => n.id = t.id ∧
      List.Forall₂ (d.ShowsRole t) (t.expansion d.partials).columns n.columns)
        d.tables diagram.nodes)
    {table field : String} (h : d.MakesForeign table field) : diagram.OnlyKeysAt table field := by
  rintro n hn rfl shown hshown rfl
  obtain ⟨t, -, hid, hroles⟩ := exists_mem_of_forall₂ hcolumns hn
  obtain ⟨c, -, hrole⟩ := exists_mem_of_forall₂ hroles hshown
  refine hrole.role.of_foreign ?_
  rwa [hid, hrole.name] at h

/-- Every edge of a link has an end that the link makes a foreign key. -/
theorem LinkOutcome.foreign_of_mem_edges {o : LinkOutcome} {i : Nat} {e : Edge}
    (he : e ∈ o.edges i) : (e.source, e.sourceField) ∈ o.foreignFields ∨
      (e.target, e.targetField) ∈ o.foreignFields := by
  obtain ⟨relation, left, right, j, source, target, rfl, hs, ht, rfl⟩ := mem_edges_iff.mp he
  simp only [Edge.sourceField, Edge.targetField, Edge.between, Side.field_handle]
  rw [mem_foreignFields_drawn, mem_foreignFields_drawn]
  have hsource := List.mem_of_getElem? hs
  have htarget := List.mem_of_getElem? ht
  cases hrelation : relation.leftIsForeign with
  | true => exact .inl (.inl ⟨rfl, rfl, hsource⟩)
  | false =>
    have hright : relation.rightIsForeign = true := by
      cases relation <;> first | rfl | cases hrelation
    exact .inr (.inr ⟨hright, rfl, htarget⟩)

/-- **Columns show the roles that the document implies**, whatever the options. -/
theorem column_roles {options : CompileOptions} {d : Document} {c : Compiled}
    (h : compile options d = .ok c) : d.ShowsRoles c.diagram := by
  obtain ⟨known, tables, outcomes, hknown, htables, houtcomes, rfl⟩ := compile_eq_ok_iff.mp h
  obtain rfl := aliases_eq hknown
  rw [expandAll_ids htables] at houtcomes
  obtain ⟨rfl, -⟩ := expandAll_eq_ok_iff.mp htables
  have hforeign : ∀ table field, (table, field) ∈ outcomes.flatMap LinkOutcome.foreignFields ↔
      d.MakesForeign table field := fun _ _ => mem_flatMap_foreignFields houtcomes
  have hcolumns : List.Forall₂ (fun t n => n.id = t.id ∧
      List.Forall₂ (d.ShowsRole t) (t.expansion d.partials).columns n.columns) d.tables
        (Diagram.ofTables options.grid (d.tables.map (Table.expansion d.partials))
          outcomes).nodes := by
    rw [Diagram.ofTables, List.zipIdx_map, List.map_map, ← List.zipIdx_map_fst 0 d.tables,
      List.forall₂_map_left_iff, List.forall₂_map_right_iff, List.zipIdx_map_fst,
      List.forall₂_same]
    rintro ⟨t, i⟩ -
    refine ⟨t.id_expansion d.partials, ?_⟩
    dsimp only [Function.comp_apply, Prod.map_apply, Expansion.node, id]
    rw [List.forall₂_map_right_iff, List.forall₂_same]
    exact fun column _ => d.showsRole_nodeColumn hforeign column
  refine ⟨hcolumns, fun e he => ?_⟩
  obtain ⟨⟨o, i⟩, ho, he⟩ := List.mem_flatMap.mp he
  have hmark : ∀ table field, (table, field) ∈ o.foreignFields → d.MakesForeign table field :=
    fun table field hmem =>
      (hforeign table field).mp (List.mem_flatMap.mpr ⟨o, List.fst_mem_of_mem_zipIdx ho, hmem⟩)
  rcases LinkOutcome.foreign_of_mem_edges he with hmem | hmem
  · exact .inl (Document.onlyKeysAt_of_makesForeign hcolumns (hmark _ _ hmem))
  · exact .inr (Document.onlyKeysAt_of_makesForeign hcolumns (hmark _ _ hmem))

/-- Orders whose primary key and unique code come from a partial, a unique index over two columns,
and references that call the orders by an alias: one pairs two fields, one marks a column of the
primary key, and neither the one to a table that is not declared nor the one without a right end
marks anything. -/
def salesDocument : Document where
  project := none
  tables :=
    [⟨some "sales", "orders", some "O", [.marker "keyed" 2, .column ⟨"shop", none, [], 3⟩,
        .column ⟨"number", none, [], 4⟩, .column ⟨"buyer", none, [.unique], 5⟩,
        .column ⟨"region", none, [], 6⟩, .column ⟨"agent", none, [], 7⟩,
        .column ⟨"batch", none, [], 8⟩], [⟨["agent", "batch"], false, true, none⟩], none, 1⟩,
      ⟨none, "buyers", none,
        [.column ⟨"id", none, [.primaryKey], 10⟩, .column ⟨"region", none, [], 11⟩], [], none, 9⟩]
  partials := [⟨"keyed", [⟨"code", none, [], 13⟩],
    [⟨["shop", "number"], true, false, none⟩, ⟨["code"], false, true, none⟩], none⟩]
  refs :=
    [⟨none, some ⟨none, "O", ["buyer", "region"]⟩, .manyToOne,
        some ⟨none, "buyers", ["id", "region"]⟩, none, none, 14⟩,
      ⟨none, some ⟨none, "O", ["agent"]⟩, .manyToOne, some ⟨none, "people", ["id"]⟩, none, none,
        15⟩,
      ⟨none, some ⟨none, "O", ["batch"]⟩, .manyToMany, none, none, none, 16⟩,
      ⟨none, some ⟨none, "buyers", ["region"]⟩, .oneToMany, some ⟨none, "O", ["shop"]⟩, none, none,
        17⟩]
  enums := []

theorem column_roles_sales : ∃ c, compile {} salesDocument = .ok c ∧
    c.diagram.nodes.map (fun n => n.columns.map fun shown => (shown.name, shown.role)) =
      [[("code", some .unique), ("shop", some .primary), ("number", some .primary),
          ("buyer", some .foreign), ("region", some .foreign), ("agent", none), ("batch", none)],
        [("id", some .primary), ("region", none)]] ∧
    c.diagram.edges.map Edge.label = ["buyer → id", "region → region", "region → shop"] ∧
    salesDocument.ShowsRoles c.diagram := by
  have heval : (compile {} salesDocument).toOption.map (fun c =>
      (c.diagram.nodes.map (fun n => n.columns.map fun shown => (shown.name, shown.role)),
        c.diagram.edges.map Edge.label)) =
      some ([[("code", some .unique), ("shop", some .primary), ("number", some .primary),
            ("buyer", some .foreign), ("region", some .foreign), ("agent", none), ("batch", none)],
          [("id", some .primary), ("region", none)]],
        ["buyer → id", "region → region", "region → shop"]) := by
    decide +kernel
  obtain ⟨c, hc, hseen⟩ := exists_ok_of_map_toOption heval
  obtain ⟨hroles, hlabels⟩ := Prod.mk.inj hseen
  exact ⟨c, hc, hroles, hlabels, column_roles hc⟩

end SchemaGraph
