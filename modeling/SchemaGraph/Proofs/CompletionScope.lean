import SchemaGraph.Proofs.Catalogs
import SchemaGraph.Proofs.Compilable
import SchemaGraph.Proofs.Readers
import SchemaGraph.Proofs.SoundDiagrams

/-!
# What can be called in a completion

The catalog of a text that compiles keeps the ids of nodes and the aliases of tables under one roof.
Where neither schemas nor names nor aliases hold a point, an id has one point and an alias has none,
so that no name is both. Then the catalog lists the nodes in order and behind them the aliases, each
with the columns of its table; and a name is resolved to the columns of the very node at which the
compiler draws a reference under that name, or to nothing if the compiler calls the reference
dangling (`catalog_scope_agrees`). They look in different orders, the catalog for a table of the
default schema after an id or an alias and once more for an alias, the compiler for an alias first.
-/

namespace SchemaGraph

/-! ### Names without points -/

/-- Neither the schema of a table nor its name nor its alias holds a point. -/
structure Table.PointFree (t : Table) : Prop where
  schema : ∀ s ∈ t.schema, '.' ∉ s.toList
  name : '.' ∉ t.name.toList
  shorthand : ∀ a ∈ t.shorthand, '.' ∉ a.toList

/-- Neither the schema nor the table that an endpoint names holds a point. -/
structure Endpoint.PointFree (e : Endpoint) : Prop where
  schema : ∀ s ∈ e.schema, '.' ∉ s.toList
  table : '.' ∉ e.table.toList

/-- The points in a name. -/
def points (name : String) : Nat :=
  name.toList.count '.'

theorem points_eq_zero_iff {name : String} : points name = 0 ↔ '.' ∉ name.toList :=
  List.count_eq_zero

theorem points_qualify (schema : Option String) (name : String) :
    points (qualify schema name) = points (schema.getD defaultSchema) + 1 + points name := by
  have point : ".".toList = ['.'] := rfl
  simp [points, qualify, point, List.count_append]
  omega

/-- An id has one point, between schema and name. -/
theorem Table.PointFree.points_id {t : Table} (h : t.PointFree) : points t.id = 1 := by
  have hschema : points (t.schema.getD defaultSchema) = 0 := by
    cases hs : t.schema with
    | none => decide
    | some s => exact points_eq_zero_iff.mpr (h.schema s hs)
  rw [Table.id, points_qualify, hschema, points_eq_zero_iff.mpr h.name]

/-! ### The columns of nodes -/

/-- The columns of the node with a given id. -/
def Diagram.columns? (d : Diagram) (id : String) : Option (List String) :=
  (d.node? id).map fun n => n.columns.map NodeColumn.name

theorem Diagram.columns?_eq_lookup (d : Diagram) (id : String) :
    d.columns? id = (d.nodes.map Node.listed).lookup id := by
  rw [lookup_eq_map_find?, List.find?_map, Option.map_map]
  rfl

/-- The names of the columns that a table has in a document, injected ones included. -/
def Document.columnNames (d : Document) (t : Table) : List String :=
  (t.expansion d.partials).columns.map Column.name

section Compiled

variable {options : CompileOptions} {d : Document} {c : Compiled} {k : String}

/-- The nodes of a document list its tables in order. -/
theorem map_listed_of_compile (h : compile options d = .ok c) :
    c.diagram.nodes.map Node.listed = d.tables.map fun t => (t.id, d.columnNames t) := by
  obtain ⟨known, tables, outcomes, -, htables, -, rfl⟩ := compile_eq_ok_iff.mp h
  obtain ⟨rfl, -⟩ := expandAll_eq_ok_iff.mp htables
  have hnodes : ∀ tables : List Expansion,
      (Diagram.ofTables options.grid tables outcomes).nodes.map Node.listed =
        tables.map fun e => (e.id, e.columns.map Column.name) := by
    intro tables
    conv_rhs => rw [← List.zipIdx_map_fst 0 tables, List.map_map]
    rw [Diagram.ofTables, List.map_map]
    refine List.map_congr_left fun x _ => ?_
    simp only [Function.comp_apply, Node.listed, Expansion.node, List.map_map]
    rfl
  rw [hnodes, List.map_map]
  exact List.map_congr_left fun t _ => congrArg (·, _) (t.id_expansion d.partials)

theorem map_id_nodes_of_compile (h : compile options d = .ok c) :
    c.diagram.nodes.map Node.id = d.tables.map Table.id := by
  have hids := congrArg (List.map Prod.fst) (map_listed_of_compile h)
  rwa [List.map_map, List.map_map] at hids

/-- Different tables of a document that compiles have different ids, and different aliases. -/
theorem nodup_of_compile (h : compile options d = .ok c) :
    (d.tables.map Table.id).Nodup ∧ (d.tables.filterMap Table.shorthand).Nodup := by
  simp only [compile_eq_ok_iff, aliases_eq_ok_iff, expandAll_eq_ok_iff] at h
  obtain ⟨_, _, _, ⟨-, hdistinct, -⟩, ⟨-, hids, -⟩, -⟩ := h
  exact ⟨hids, hdistinct⟩

theorem columns?_of_mem (h : compile options d = .ok c) {t : Table} (ht : t ∈ d.tables) :
    c.diagram.columns? t.id = some (d.columnNames t) := by
  rw [Diagram.columns?_eq_lookup, map_listed_of_compile h]
  refine lookup_of_mem ?_ (List.mem_map.mpr ⟨t, ht, rfl⟩)
  rw [List.map_map]
  exact (nodup_of_compile h).1

/-! ### The catalog of a text that compiles -/

/-- The aliases of tables are new names beside the ids. -/
theorem nodup_names (h : compile options d = .ok c) (hpoints : ∀ t ∈ d.tables, t.PointFree) :
    (d.tables.map Table.id ++ d.tables.filterMap Table.shorthand).Nodup := by
  obtain ⟨hids, hdistinct⟩ := nodup_of_compile h
  refine List.nodup_append.mpr ⟨hids, hdistinct, fun id hid a ha heq => ?_⟩
  obtain ⟨t, ht, rfl⟩ := List.mem_map.mp hid
  obtain ⟨u, hu, hshorthand⟩ := List.mem_filterMap.mp ha
  have hone := (hpoints t ht).points_id
  have hnone := points_eq_zero_iff.mpr ((hpoints u hu).shorthand a hshorthand)
  rw [heq, hnone] at hone
  cases hone

/-- No alias is declared twice, so that a map of the aliases lists them as they are declared. -/
theorem entries_insertAll_declaredAliases (h : compile options d = .ok c) :
    (OrderedMap.empty.insertAll (declaredAliases d.tables)).entries = declaredAliases d.tables := by
  refine OrderedMap.entries_insertAll ?_
  rw [map_fst_declaredAliases]
  exact (nodup_of_compile h).2

/-- The catalog lists the tables in order, and then the aliases in order, each with the columns of
its table. -/
theorem entries_ofDiagram (h : compile options d = .ok c)
    (hpoints : ∀ t ∈ d.tables, t.PointFree) :
    (Catalog.ofDiagram c.diagram d.tables).tables.entries =
      (d.tables.map fun t => (t.id, d.columnNames t)) ++
        d.tables.filterMap fun t => t.shorthand.map (·, d.columnNames t) := by
  have hnames := nodup_names h hpoints
  have hids : (c.diagram.nodes.map Node.listed).map Prod.fst = d.tables.map Table.id := by
    rw [map_listed_of_compile h, List.map_map]
    rfl
  let listing := Catalog.listing (c.diagram.nodes.map Node.listed) (declaredAliases d.tables)
  have htables : listing.tables.entries = d.tables.map fun t => (t.id, d.columnNames t) := by
    rw [← map_listed_of_compile h]
    refine OrderedMap.entries_insertAll ?_
    rw [hids]
    exact (List.nodup_append.mp hnames).1
  have haliases : listing.aliases.entries = declaredAliases d.tables :=
    entries_insertAll_declaredAliases h
  have hcolumns : ∀ t ∈ d.tables, listing.tables.get? t.id = some (d.columnNames t) := by
    intro t ht
    rw [OrderedMap.get?, htables, ← map_listed_of_compile h, ← Diagram.columns?_eq_lookup]
    exact columns?_of_mem h ht
  have hlisted : listing.tables.names = d.tables.map Table.id := by
    rw [OrderedMap.names, htables, List.map_map]
    rfl
  rw [Catalog.ofDiagram_eq]
  change (listing.resolveAll listing.aliases.entries).tables.entries = _
  rw [haliases, Catalog.entries_resolveAll (fun id => (listing.tables.get? id).getD []), htables,
    declaredAliases, List.map_filterMap]
  · refine congrArg _ (List.filterMap_congr fun t ht => ?_)
    rw [Option.map_map]
    cases t.shorthand with
    | none => rfl
    | some a => simp [hcolumns t ht]
  · rw [hlisted, map_fst_declaredAliases]
    exact hnames
  · intro e he
    obtain ⟨t, ht, hshorthand⟩ := List.mem_filterMap.mp he
    obtain ⟨a, -, rfl⟩ := Option.map_eq_some_iff.mp hshorthand
    simp [hcolumns t ht]

/-- The aliases of the catalog are those that tables declare. -/
theorem get?_aliases_ofDiagram (h : compile options d = .ok c) :
    (Catalog.ofDiagram c.diagram d.tables).aliases.get? k =
      (declaredAliases d.tables).lookup k := by
  have haliases : (Catalog.ofDiagram c.diagram d.tables).aliases =
      OrderedMap.empty.insertAll (declaredAliases d.tables) := by
    rw [Catalog.ofDiagram_eq]
    exact Catalog.aliases_resolveAll _ _
  rw [haliases, OrderedMap.get?, entries_insertAll_declaredAliases h]

/-- A name in the catalog is the id of a node or the alias of a table. -/
theorem get?_tables_ofDiagram (h : compile options d = .ok c)
    (hpoints : ∀ t ∈ d.tables, t.PointFree) :
    (Catalog.ofDiagram c.diagram d.tables).tables.get? k =
      (c.diagram.columns? k).or
        ((d.tables.find? (·.shorthand == some k)).map d.columnNames) := by
  rw [OrderedMap.get?, entries_ofDiagram h hpoints, List.lookup_append, lookup_shorthands,
    Diagram.columns?_eq_lookup, map_listed_of_compile h]

/-! ### Names and points -/

theorem columns?_eq_none_iff (h : compile options d = .ok c) :
    c.diagram.columns? k = none ↔ k ∉ d.tables.map Table.id := by
  rw [← map_id_nodes_of_compile h, Diagram.columns?, Option.map_eq_none_iff, Diagram.node?,
    List.find?_eq_none, List.mem_map]
  simp

/-- What has not one point is no id. -/
theorem columns?_of_points (h : compile options d = .ok c)
    (hpoints : ∀ t ∈ d.tables, t.PointFree) (hk : points k ≠ 1) :
    c.diagram.columns? k = none := by
  rw [columns?_eq_none_iff h, List.mem_map]
  rintro ⟨t, ht, rfl⟩
  exact hk (hpoints t ht).points_id

/-- What has a point is no alias. -/
theorem find?_shorthand_of_points (hpoints : ∀ t ∈ d.tables, t.PointFree) (hk : points k ≠ 0) :
    d.tables.find? (·.shorthand == some k) = none := by
  rw [List.find?_eq_none]
  intro t ht hshorthand
  exact hk (points_eq_zero_iff.mpr ((hpoints t ht).shorthand k (beq_iff_eq.mp hshorthand)))

end Compiled

/-! ### Looking names up in the catalog -/

/-- An endpoint as it is typed in front of a column. -/
def Endpoint.path (e : Endpoint) : String :=
  match e.schema with
  | none => e.table
  | some schema => qualify (some schema) e.table

/-- The catalog tries the name itself, then the name in the default schema, then the alias. -/
theorem Catalog.map_snd_resolve? (c : Catalog) (name : String) :
    (c.resolve? name).map Prod.snd =
      (c.tables.get? name).or ((c.tables.get? (qualify none name)).or
        ((c.aliases.get? name).bind c.tables.get?)) := by
  rw [resolve?, List.findSome?_cons, List.findSome?_cons]
  cases c.tables.get? name with
  | some columns => rfl
  | none =>
    cases c.tables.get? (qualify none name) with
    | some columns => rfl
    | none =>
      cases c.aliases.get? name with
      | none => rfl
      | some table => cases hcolumns : c.tables.get? table <;> simp [hcolumns]

/-- The catalog finds the columns of the table that the compiler means. -/
theorem map_snd_resolve?_ofDiagram {options : CompileOptions} {d : Document} {c : Compiled}
    (h : compile options d = .ok c) (hpoints : ∀ t ∈ d.tables, t.PointFree) {e : Endpoint}
    (he : e.PointFree) :
    ((Catalog.ofDiagram c.diagram d.tables).resolve? e.path).map Prod.snd =
      c.diagram.columns? (e.tableId (declaredAliases d.tables)) := by
  obtain ⟨schema, name, fields⟩ := e
  have hname : points name = 0 := points_eq_zero_iff.mpr he.table
  have hdefault : points defaultSchema = 0 := by decide
  rw [Catalog.map_snd_resolve?]
  simp only [get?_tables_ofDiagram h hpoints, get?_aliases_ofDiagram h, Endpoint.path,
    Endpoint.tableId]
  cases schema with
  | none =>
    -- without a schema the name itself can only be an alias
    have hid : c.diagram.columns? name = none := columns?_of_points h hpoints (by omega)
    have hqualified : d.tables.find? (·.shorthand == some (qualify none name)) = none := by
      refine find?_shorthand_of_points hpoints ?_
      rw [points_qualify]
      omega
    rw [declaredAliases, lookup_shorthands, hid, hqualified]
    cases hfind : d.tables.find? (·.shorthand == some name) with
    | none => simp
    | some t => simp [columns?_of_mem h (List.mem_of_find?_eq_some hfind)]
  | some s =>
    -- with a schema it can only be an id, and more points make no name
    have hs : points s = 0 := points_eq_zero_iff.mpr (he.schema s rfl)
    have hone : points (qualify (some s) name) = 1 := by
      rw [points_qualify, Option.getD_some]
      omega
    have htwo : points (qualify none (qualify (some s) name)) = 2 := by
      rw [points_qualify, Option.getD_none]
      omega
    have hnone : d.tables.find? (·.shorthand == some (qualify (some s) name)) = none :=
      find?_shorthand_of_points hpoints (by omega)
    have hnone' : d.tables.find? (·.shorthand == some (qualify none (qualify (some s) name))) =
        none := find?_shorthand_of_points hpoints (by omega)
    have hid : c.diagram.columns? (qualify none (qualify (some s) name)) = none :=
      columns?_of_points h hpoints (by omega)
    rw [declaredAliases, lookup_shorthands, hnone, hnone', hid]
    simp

/-! ### What the compiler calls dangling -/

/-- The document with one more reference, from an endpoint to itself. -/
def Document.withRef (d : Document) (e : Endpoint) (line : Nat) : Document :=
  { d with refs := d.refs ++ [⟨none, some e, .oneToOne, some e, none, none, line⟩] }

/-- **The compiler calls an endpoint dangling**: on whichever line a reference to it is added, the
document compiles with a warning that this reference points at an unknown table. -/
def Document.CallsDangling (options : CompileOptions) (d : Document) (e : Endpoint) : Prop :=
  ∀ line, ∃ known c, aliases d.tables = .ok known ∧ compile options (d.withRef e line) = .ok c ∧
    .danglingRef line (e.tableId known) ∈ c.warnings

/-- A document that warns of an unknown table does not declare it. -/
theorem not_mem_of_danglingRef {options : CompileOptions} {d : Document} {c : Compiled}
    (h : compile options d = .ok c) {line : Nat} {table : String}
    (hwarning : .danglingRef line table ∈ c.warnings) : table ∉ d.tables.map Table.id := by
  obtain ⟨known, tables, outcomes, -, htables, houtcomes, rfl⟩ := compile_eq_ok_iff.mp h
  rw [expandAll_ids htables] at houtcomes
  obtain ⟨rfl, -⟩ := expandAll_eq_ok_iff.mp htables
  rcases List.mem_append.mp hwarning with hmem | hmem
  · cases isUnknownPartial_of_tables hmem
  · obtain ⟨o, ho, hw⟩ := List.mem_filterMap.mp hmem
    obtain ⟨l, -, hl⟩ := exists_mem_of_forall₂ houtcomes ho
    rcases Link.outcome_cases hl with
      ⟨-, rfl⟩ | ⟨left, right, -, -, ⟨hleft, rfl⟩ | ⟨-, hright, rfl⟩ | ⟨-, -, rfl⟩⟩
    · cases hw
    · cases hw
      exact hleft
    · cases hw
      exact hright
    · cases hw

/-- A document that compiles does so with one more reference, and warns of it if it has to. -/
theorem exists_compile_withRef {options : CompileOptions} {d : Document} {c : Compiled}
    (h : compile options d = .ok c) {e : Endpoint} (hfields : e.fields ≠ [])
    {known : Aliases} (hknown : aliases d.tables = .ok known)
    (hunknown : e.tableId known ∉ d.tables.map Table.id) (line : Nat) :
    ∃ c', compile options (d.withRef e line) = .ok c' ∧
      .danglingRef line (e.tableId known) ∈ c'.warnings := by
  obtain ⟨known, tables, outcomes, hknown', htables, houtcomes, rfl⟩ := compile_eq_ok_iff.mp h
  cases hknown.symm.trans hknown'
  rw [← expandAll_ids htables] at hunknown
  let link := Link.ofRef known ⟨none, some e, .oneToOne, some e, none, none, line⟩
  have houtcome : link.outcome (tables.map Expansion.id) =
      .ok (.dropped (.danglingRef line (e.tableId known))) := by
    have hends : link.ends? = some (.ofEndpoint known e, .ofEndpoint known e) :=
      Link.ends?_eq_some_iff.mpr ⟨rfl, rfl, hfields, hfields⟩
    rw [Link.outcome, hends]
    exact (if_neg (not_not.mpr rfl)).trans (if_pos hunknown)
  have hall : Link.all known (d.withRef e line).refs tables = d.refs.map (Link.ofRef known) ++
      link :: tables.flatMap fun t => t.columns.flatMap (Link.ofColumn known t.id) := by
    rw [Link.all, Document.withRef, List.map_append, List.append_assoc]
    rfl
  have hlinks : ∀ l ∈ Link.all known (d.withRef e line).refs tables,
      ∃ o, l.outcome (tables.map Expansion.id) = .ok o := by
    have hold := exists_forall₂_iff.mp ⟨outcomes, houtcomes⟩
    rw [Link.all, List.forall_mem_append] at hold
    rw [hall, List.forall_mem_append, List.forall_mem_cons]
    exact ⟨hold.1, ⟨_, houtcome⟩, hold.2⟩
  obtain ⟨outcomes', houtcomes'⟩ := exists_forall₂_iff.mpr hlinks
  refine ⟨_, compile_eq_ok_iff.mpr ⟨known, tables, outcomes', hknown, htables, houtcomes', rfl⟩,
    List.mem_append_right _ (List.mem_filterMap.mpr ?_)⟩
  have hmem : link ∈ Link.all known (d.withRef e line).refs tables := by
    rw [hall]
    exact List.mem_append_right _ List.mem_cons_self
  obtain ⟨o, ho, hlink⟩ := exists_mem_of_forall₂ houtcomes'.flip hmem
  refine ⟨o, ho, ?_⟩
  cases houtcome.symm.trans hlink
  rfl

theorem callsDangling_iff {options : CompileOptions} {d : Document} {c : Compiled}
    (h : compile options d = .ok c) {e : Endpoint} (hfields : e.fields ≠ []) {known : Aliases}
    (hknown : aliases d.tables = .ok known) :
    d.CallsDangling options e ↔ e.tableId known ∉ d.tables.map Table.id := by
  constructor
  · intro hdangling
    obtain ⟨_, c', hknown', hc', hwarning⟩ := hdangling 0
    cases hknown.symm.trans hknown'
    exact not_mem_of_danglingRef hc' hwarning
  · intro hunknown line
    obtain ⟨c', hc', hwarning⟩ := exists_compile_withRef h hfields hknown hunknown line
    exact ⟨known, c', hknown, hc', hwarning⟩

/-! ### The agreement -/

/-- The aliases of a document that compiles, each with the columns of the node of its table. -/
theorem zip_nodes_of_compile {options : CompileOptions} {d : Document} {c : Compiled}
    (h : compile options d = .ok c) :
    ((d.tables.zip c.diagram.nodes).filterMap fun (t, n) =>
        t.shorthand.map (·, n.columns.map NodeColumn.name)) =
      d.tables.filterMap fun t => t.shorthand.map (·, d.columnNames t) := by
  have hzip : (d.tables.zip c.diagram.nodes).map (Prod.map id Node.listed) =
      d.tables.map fun t => (t, t.id, d.columnNames t) := by
    rw [← List.zip_map_right, map_listed_of_compile h]
    nth_rewrite 1 [← List.map_id d.tables]
    exact List.zip_map'
  calc _ = ((d.tables.zip c.diagram.nodes).map (Prod.map id Node.listed)).filterMap
        fun x => x.1.shorthand.map (·, x.2.2) := List.filterMap_map.symm
    _ = _ := by rw [hzip, List.filterMap_map]; rfl

/-- **The catalog agrees with the compiler.** Let a text compile in whose document no schema, name
or alias of a table holds a point. The catalog lists the nodes in order, each with its columns, and
then the aliases in the order of the tables, each with the columns of the node of its table. What it
finds under a name, with a schema or without, are the columns of the node at which the compiler
draws a reference to that name; and it finds nothing exactly when the compiler calls the reference
dangling. -/
theorem catalog_scope_agrees {dialect : Dialect} {options : CompileOptions} {text : String}
    {d : Document} {c : Compiled} (hparse : Document.parse dialect text = .ok d)
    (hcompile : compile options d = .ok c) (hpoints : ∀ t ∈ d.tables, t.PointFree) :
    ∃ catalog known, (Analysis.full dialect options).catalog text = catalog ∧
      aliases d.tables = .ok known ∧ c.diagram.nodes.map Node.id = d.tables.map Table.id ∧
      catalog.tables.entries =
        c.diagram.nodes.map (fun n => (n.id, n.columns.map NodeColumn.name)) ++
          ((d.tables.zip c.diagram.nodes).filterMap fun (t, n) =>
            t.shorthand.map (·, n.columns.map NodeColumn.name)) ∧
      ∀ e : Endpoint, e.PointFree →
        (catalog.resolve? e.path).map Prod.snd = c.diagram.columns? (e.tableId known) ∧
        (e.fields ≠ [] → (catalog.resolve? e.path = none ↔ d.CallsDangling options e)) := by
  obtain ⟨known, _, _, hknown, -⟩ := compile_eq_ok_iff.mp hcompile
  have hcatalog : (Analysis.full dialect options).catalog text =
      .ofDiagram c.diagram d.tables := by
    simp only [Analysis.catalog, hparse, hcompile]
  refine ⟨_, known, hcatalog, hknown, map_id_nodes_of_compile hcompile, ?_, fun e he => ?_⟩
  · rw [entries_ofDiagram hcompile hpoints, zip_nodes_of_compile hcompile,
      ← map_listed_of_compile hcompile]
    rfl
  · have hfound := map_snd_resolve?_ofDiagram hcompile hpoints he
    rw [← aliases_eq hknown] at hfound
    refine ⟨hfound, fun hfields => ?_⟩
    rw [callsDangling_iff hcompile hfields hknown, ← columns?_eq_none_iff hcompile, ← hfound,
      Option.map_eq_none_iff]

/-- People, and orders with the columns of a partial and an alias. -/
def shopText : String :=
  "TablePartial keys { id int }\nTable people { name text }\nTable sales.orders as o { ~keys }\n"

/-- The same as it is read. -/
def shopDocument : Document where
  project := none
  tables :=
    [⟨none, "people", none, [.column ⟨"name", some "text", [], 2⟩], [], none, 2⟩,
      ⟨some "sales", "orders", some "o", [.marker "keys" 3], [], none, 3⟩]
  partials := [⟨"keys", [⟨"id", some "int", [], 1⟩], [], none⟩]
  refs := []
  enums := []

/-- The alias of orders is a name without a schema, and dangling in their own one. -/
theorem catalog_scope_agrees_shop :
    Document.parse .partials shopText = .ok shopDocument ∧
    ∃ c catalog, compile {} shopDocument = .ok c ∧
      (Analysis.full .partials {}).catalog shopText = catalog ∧
      catalog.tables.entries =
        [("public.people", ["name"]), ("sales.orders", ["id"]), ("o", ["id"])] ∧
      (catalog.resolve? "people").map Prod.snd = c.diagram.columns? "public.people" ∧
      (catalog.resolve? "o").map Prod.snd = c.diagram.columns? "sales.orders" ∧
      shopDocument.CallsDangling {} ⟨some "sales", "o", ["id"]⟩ := by
  have hparse : Document.parse .partials shopText = .ok shopDocument := by
    decide +kernel
  have hpoints : ∀ t ∈ shopDocument.tables, t.PointFree := by
    simp only [shopDocument, List.forall_mem_cons]
    exact ⟨⟨nofun, by decide, nofun⟩, ⟨by simp, by decide, by simp⟩, nofun⟩
  have hcatalog : ((Analysis.full .partials {}).catalog shopText).tables.entries =
        [("public.people", ["name"]), ("sales.orders", ["id"]), ("o", ["id"])] ∧
      ((Analysis.full .partials {}).catalog shopText).resolve? "sales.o" = none := by
    decide +kernel
  have hcompile : (compile {} shopDocument).toOption.map
      (fun c => c.diagram.nodes.map Node.id) = some ["public.people", "sales.orders"] := by
    decide +kernel
  obtain ⟨c, hc, -⟩ := exists_ok_of_map_toOption hcompile
  obtain ⟨catalog, known, hsame, hknown, -, -, hagree⟩ := catalog_scope_agrees hparse hc hpoints
  cases aliases_eq hknown
  obtain ⟨hentries, hnone⟩ := hcatalog
  rw [hsame] at hentries hnone
  have hpeople := (hagree ⟨none, "people", ["name"]⟩ ⟨nofun, by decide⟩).1
  have horders := (hagree ⟨none, "o", ["id"]⟩ ⟨nofun, by decide⟩).1
  have hdangling := (hagree ⟨some "sales", "o", ["id"]⟩ ⟨by simp, by decide⟩).2
  exact ⟨hparse, c, catalog, hc, hsame, hentries, hpeople, horders,
    (hdangling (List.cons_ne_nil _ _)).mp hnone⟩

end SchemaGraph
