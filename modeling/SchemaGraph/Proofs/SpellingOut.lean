import SchemaGraph.Proofs.Expanding

/-!
# Aliases as shorthand

An alias is shorthand for the schema and the name of a table. Spelled out, every endpoint that calls
a table by an alias names its schema and its name instead, in declared references and in the
settings of columns, those of partials included, and no table has an alias any more
(`Document.spelledOut`). Unless a conflict of aliases is reported, a document that is spelled out
compiles to the same or fails for the same reason, and an alias that is also the name of a table is
the alias of that very table (`compile_spelledOut`).

What an endpoint says matters only where it is resolved to a table. So the endpoints of a document
are first spelled in any way at all (`Table.spell`): expanding does not look at them, nodes do not
show them, and the links are the same if the endpoints still mean the same tables.
-/

namespace SchemaGraph

/-! ### Spelling endpoints another way -/

section Spelling

variable (f : Endpoint → Endpoint)

def ColumnSetting.spell : ColumnSetting → ColumnSetting
  | .ref r => .ref { r with target := f r.target }
  | s => s

def Column.spell (c : Column) : Column :=
  { c with settings := c.settings.map (.spell f) }

def TableItem.spell : TableItem → TableItem
  | .column c => .column (c.spell f)
  | .marker name line => .marker name line

def Partial.spell (p : Partial) : Partial :=
  { p with columns := p.columns.map (.spell f) }

def Ref.spell (r : Ref) : Ref :=
  { r with left := r.left.map f, right := r.right.map f }

/-- A table without its alias, with the endpoints in the settings of its columns spelled another
way. -/
def Table.spell (t : Table) : Table :=
  { t with shorthand := none, items := t.items.map (.spell f) }

/-- The expansion of such a table. -/
def Expansion.spell (e : Expansion) : Expansion :=
  { e with table := e.table.spell f, columns := e.columns.map (.spell f) }

/-! ### Tables -/

theorem Table.map_name_columns_spell (t : Table) :
    (t.spell f).columns.map Column.name = t.columns.map Column.name := by
  have hitem : ∀ item : TableItem, (item.spell f).column?.map Column.name =
      item.column?.map Column.name := by
    intro item
    cases item <;> rfl
  rw [columns, columns, List.map_filterMap, List.map_filterMap, spell, List.filterMap_map]
  exact List.filterMap_congr fun item _ => hitem item

theorem findPartial?_spell (partials : List Partial) (name : String) :
    findPartial? (partials.map (.spell f)) name = (findPartial? partials name).map (.spell f) := by
  rw [findPartial?, ← List.map_reverse, List.find?_map]
  rfl

theorem putColumn_spell (c : Column) (cs : List Column) :
    putColumn (c.spell f) (cs.map (.spell f)) = (putColumn c cs).map (.spell f) := by
  induction cs with
  | nil => rfl
  | cons d cs ih =>
    by_cases h : d.name = c.name
    · have h' : (d.spell f).name = (c.spell f).name := h
      rw [List.map_cons, putColumn, putColumn, if_pos h, if_pos h', List.map_cons]
    · have h' : ¬ (d.spell f).name = (c.spell f).name := h
      rw [List.map_cons, putColumn, putColumn, if_neg h, if_neg h', List.map_cons, ih]

theorem foldl_injectColumn_spell (reserved : List String) (injected cs : List Column) :
    (injected.map (Column.spell f)).foldl (injectColumn reserved) (cs.map (.spell f)) =
      (injected.foldl (injectColumn reserved) cs).map (.spell f) := by
  induction injected generalizing cs with
  | nil => rfl
  | cons c injected ih =>
    rw [List.map_cons, List.foldl_cons, List.foldl_cons, ← ih]
    congr 1
    unfold injectColumn
    by_cases h : c.name ∈ reserved
    · exact (if_pos h).trans (congrArg _ (if_pos h).symm)
    · exact ((if_neg h).trans (putColumn_spell f c cs)).trans (congrArg _ (if_neg h).symm)

theorem Expansion.inject_spell (e : Expansion) (p : Partial) :
    (e.spell f).inject (p.spell f) = (e.inject p).spell f := by
  have hreserved : (e.spell f).table.columns.map Column.name =
      e.table.columns.map Column.name := Table.map_name_columns_spell f e.table
  simp only [inject, hreserved]
  simp only [spell, Partial.spell, foldl_injectColumn_spell]

/-- Going on with an item does not look at endpoints. -/
theorem Expansion.addItem_spell (strict : Bool) (partials : List Partial) (e : Expansion)
    (item : TableItem) :
    (e.spell f).addItem strict (partials.map (.spell f)) (item.spell f) =
      (e.addItem strict partials item).map (.spell f) := by
  cases item with
  | column c => simp [TableItem.spell, addItem, spell, Except.map]
  | marker name line =>
    simp only [TableItem.spell, addItem, findPartial?_spell]
    cases findPartial? partials name with
    | some p => exact congrArg Except.ok (inject_spell f e p)
    | none => cases strict <;> rfl

theorem expand_spell (strict : Bool) (partials : List Partial) (t : Table) :
    expand strict (partials.map (.spell f)) (t.spell f) =
      (expand strict partials t).map (.spell f) := by
  have hitems : ∀ e : Expansion,
      (t.items.map (TableItem.spell f)).foldlM
          (Expansion.addItem strict (partials.map (.spell f))) (e.spell f) =
        (t.items.foldlM (Expansion.addItem strict partials) e).map (.spell f) := by
    induction t.items with
    | nil => exact fun e => rfl
    | cons item items ih =>
      intro e
      rw [List.map_cons, List.foldlM_cons, List.foldlM_cons, Expansion.addItem_spell]
      cases e.addItem strict partials item with
      | error e' => rfl
      | ok e' => exact ih e'
  exact hitems ⟨t, [], t.indexes, []⟩

/-! ### Nodes -/

theorem Column.contains_spell (c : Column) {s : ColumnSetting}
    (hs : ∀ r, s ≠ .ref r) : (c.spell f).settings.contains s = c.settings.contains s := by
  have hmem : ∀ s', ColumnSetting.spell f s' = s ↔ s' = s := by
    intro s'
    cases s' with
    | ref r => exact iff_of_false (fun h => hs _ h.symm) fun h => hs _ h.symm
    | _ => rfl
  rw [Bool.eq_iff_iff, List.contains_iff_mem, List.contains_iff_mem, spell]
  simp only [List.mem_map, hmem, exists_eq_right]

theorem Column.note?_spell (c : Column) : (c.spell f).note? = c.note? := by
  rw [note?, note?, spell, List.findSome?_map]
  congr 1
  funext s
  cases s <;> rfl

/-- A node does not show what its columns refer to. -/
theorem Expansion.nodeColumn_spell (e : Expansion) (foreign : List (String × String))
    (c : Column) :
    (e.spell f).nodeColumn foreign (c.spell f) = e.nodeColumn foreign c := by
  have hprimary : (c.spell f).settings.contains .primaryKey = c.settings.contains .primaryKey :=
    c.contains_spell f nofun
  have hunique : (c.spell f).settings.contains .unique = c.settings.contains .unique :=
    c.contains_spell f nofun
  simp only [nodeColumn, isPrimary, isUnique, hprimary, hunique, Column.note?_spell]
  rfl

theorem Expansion.node_spell (e : Expansion) (foreign : List (String × String))
    (position : Position) : (e.spell f).node foreign position = e.node foreign position := by
  have hcolumns : (e.spell f).columns.map ((e.spell f).nodeColumn foreign) =
      e.columns.map (e.nodeColumn foreign) := by
    simp only [spell, List.map_map]
    exact List.map_congr_left fun c _ => e.nodeColumn_spell f foreign c
  rw [node, node, hcolumns]
  rfl

theorem ofTables_spell (grid : Grid) (tables : List Expansion)
    (outcomes : List LinkOutcome) :
    Diagram.ofTables grid (tables.map (.spell f)) outcomes =
      .ofTables grid tables outcomes := by
  rw [Diagram.ofTables, Diagram.ofTables, List.zipIdx_map, List.map_map]
  simp only [Function.comp_def, Prod.map, id_eq, Expansion.node_spell]

/-! ### Links -/

variable {known known' : Aliases}

theorem Column.inlineRefs_spell (c : Column) : (c.spell f).inlineRefs =
    c.inlineRefs.map fun r => { r with target := f r.target } := by
  rw [inlineRefs, inlineRefs, spell, List.filterMap_map, List.map_filterMap]
  refine List.filterMap_congr fun s _ => ?_
  cases s <;> rfl

/-- Endpoints that mean the same tables make the same links. -/
theorem Link.all_spell
    (h : ∀ e, LinkEnd.ofEndpoint known' (f e) = LinkEnd.ofEndpoint known e) (refs : List Ref)
    (tables : List Expansion) :
    all known' (refs.map (.spell f)) (tables.map (.spell f)) =
      all known refs tables := by
  have href : ∀ r : Ref, ofRef known' (r.spell f) = ofRef known r := by
    intro r
    simp only [ofRef, Ref.spell, Option.map_map, Function.comp_def, h]
  have hcolumn : ∀ table (c : Column),
      ofColumn known' table (c.spell f) = ofColumn known table c := by
    intro table c
    simp only [ofColumn, Column.inlineRefs_spell, List.map_map, Function.comp_def, h]
    rfl
  have htable : ∀ e : Expansion, (e.spell f).columns.flatMap
      (ofColumn known' (e.spell f).id) = e.columns.flatMap (ofColumn known e.id) := by
    intro e
    simp only [Expansion.spell, List.flatMap_map, hcolumn]
    rfl
  simp only [all, List.map_map, List.flatMap_map, Function.comp_def, href, htable]

end Spelling

/-! ### Spelling aliases out -/

/-- **An endpoint without its alias**: where it calls a table by an alias, the schema and the name
of that table stand instead. -/
def Endpoint.spelledOut (tables : List Table) (e : Endpoint) : Endpoint :=
  match e.schema, tables.find? (·.shorthand == some e.table) with
  | none, some t => ⟨some (t.schema.getD defaultSchema), t.name, e.fields⟩
  | _, _ => e

/-- **A document without aliases**: each endpoint is spelled out. -/
def Document.spelledOut (d : Document) : Document :=
  { d with
    tables := d.tables.map (.spell (.spelledOut d.tables))
    partials := d.partials.map (.spell (.spelledOut d.tables))
    refs := d.refs.map (.spell (.spelledOut d.tables)) }

/-- Spelled out, an endpoint means the same table without any alias being known. -/
theorem Endpoint.ofEndpoint_spelledOut (tables : List Table) (e : Endpoint) :
    LinkEnd.ofEndpoint [] (e.spelledOut tables) =
      LinkEnd.ofEndpoint (declaredAliases tables) e := by
  obtain ⟨_ | schema, table, fields⟩ := e
  · simp only [LinkEnd.ofEndpoint, tableId, declaredAliases, lookup_shorthands, spelledOut]
    cases tables.find? (·.shorthand == some table) <;> rfl
  · rfl

theorem aliases_spelledOut (d : Document) : aliases d.spelledOut.tables = .ok [] := by
  have hnone : d.spelledOut.tables.filterMap Table.shorthand = [] := by
    rw [Document.spelledOut, List.filterMap_map, List.filterMap_eq_nil_iff]
    exact fun _ _ => rfl
  have hfree : ∀ t ∈ d.spelledOut.tables, ∀ u, ¬ t.AliasNames u := by
    simp only [Document.spelledOut, List.forall_mem_map]
    rintro t - u ⟨a, ha, -⟩
    cases ha
  rw [aliases_eq_ok_iff, hnone]
  refine ⟨?_, List.nodup_nil, ?_⟩
  · rw [declaredAliases, eq_comm, List.filterMap_eq_nil_iff, Document.spelledOut,
      List.forall_mem_map]
    exact fun _ _ => rfl
  · exact List.pairwise_of_forall_mem_list fun t ht u hu => ⟨hfree t ht u, hfree u hu t⟩

/-- The aliases of a document are known unless a conflict is reported. -/
theorem exists_aliases_of_not_conflict {options : CompileOptions} {d : Document}
    (h : ∀ shorthand table other line,
      compile options d ≠ .error (.aliasConflict shorthand table other line)) :
    ∃ known, aliases d.tables = .ok known := by
  cases hknown : aliases d.tables with
  | ok known => exact ⟨known, rfl⟩
  | error e =>
    have hcompile : compile options d = .error e := by
      rw [compile, hknown]
      rfl
    obtain ⟨known, ⟨t, own⟩, -, hadd⟩ := exists_of_foldlM_eq_error hknown
    unfold addAlias at hadd
    dsimp only at hadd
    split at hadd
    · cases hadd
    · split at hadd
      · cases hadd
        exact absurd hcompile (h _ _ _ _)
      · split at hadd
        · cases hadd
          exact absurd hcompile (h _ _ _ _)
        · cases hadd

/-- A document that is spelled out compiles as before, if its aliases are known. -/
theorem compile_spelledOut_of_aliases {options : CompileOptions} {d : Document} {known : Aliases}
    (hknown : aliases d.tables = .ok known) : compile options d.spelledOut = compile options d := by
  have hends : ∀ e, LinkEnd.ofEndpoint [] (Endpoint.spelledOut d.tables e) =
      LinkEnd.ofEndpoint known e := by
    intro e
    rw [aliases_eq hknown]
    exact Endpoint.ofEndpoint_spelledOut d.tables e
  have hexpand : expandAll options.strict d.spelledOut =
      (expandAll options.strict d).map (List.map (.spell (.spelledOut d.tables))) :=
    expandFrom_map (fun _ => rfl) fun t => expand_spell _ options.strict d.partials t
  cases htables : expandAll options.strict d with
  | error e =>
    rw [compile, compile, aliases_spelledOut, hknown, hexpand, htables]
    rfl
  | ok tables =>
    rw [htables] at hexpand
    rw [compile_of_expandAll (aliases_spelledOut d) hexpand, compile_of_expandAll hknown htables]
    have hlinks : Link.all [] d.spelledOut.refs
        (tables.map (.spell (.spelledOut d.tables))) = Link.all known d.refs tables :=
      Link.all_spell _ hends d.refs tables
    have hids : (tables.map (Expansion.spell (.spelledOut d.tables))).map Expansion.id =
        tables.map Expansion.id := List.map_map
    have hwarnings : (tables.map (Expansion.spell (.spelledOut d.tables))).flatMap
        Expansion.warnings = tables.flatMap Expansion.warnings := List.flatMap_map ..
    rw [hlinks, hids, hwarnings]
    simp only [ofTables_spell]

/-- An alias that is the name of a table is the alias of that table, if aliases are known. -/
theorem eq_of_aliasNames {tables : List Table} {known : Aliases} (h : aliases tables = .ok known)
    {i j : Nat} {t u : Table} (ht : tables[i]? = some t) (hu : tables[j]? = some u)
    (hnames : t.AliasNames u) : i = j := by
  have hfree := List.pairwise_iff_getElem.mp (aliases_eq_ok_iff.mp h).2.2
  obtain ⟨hi, rfl⟩ := List.getElem?_eq_some_iff.mp ht
  obtain ⟨hj, rfl⟩ := List.getElem?_eq_some_iff.mp hu
  rcases Nat.lt_trichotomy i j with hlt | heq | hgt
  · exact absurd hnames (hfree i j hi hj hlt).1
  · exact heq
  · exact absurd hnames (hfree j i hj hi hgt).2

/-- **Aliases are pure shorthand, and never ambiguous.** Unless a conflict of aliases is reported, a
document that is spelled out compiles to the same, or fails for the same reason. Where some table is
called by another's alias, in whichever schema, the two are one table. -/
theorem compile_spelledOut {options : CompileOptions} {d : Document}
    (h : ∀ shorthand table other line,
      compile options d ≠ .error (.aliasConflict shorthand table other line)) :
    compile options d.spelledOut = compile options d ∧
      ∀ (i j : Nat) (t u : Table) (a : String), d.tables[i]? = some t → d.tables[j]? = some u →
        t.shorthand = some a → (u.name = a ∨ u.id = a) → i = j := by
  obtain ⟨known, hknown⟩ := exists_aliases_of_not_conflict h
  exact ⟨compile_spelledOut_of_aliases hknown, fun i j t u a ht hu ha hname =>
    eq_of_aliasNames hknown ht hu ⟨a, ha, hname⟩⟩

/-- Orders and their buyers, called by aliases in a declared reference, in a column and in a column
of a partial. One table has its own name for an alias, and one reference leads nowhere. -/
def ordersDocument : Document where
  project := none
  tables :=
    [⟨some "sales", "orders", some "o",
        [.column ⟨"id", none, [.primaryKey], 2⟩,
          .column ⟨"buyer", none, [.ref ⟨.manyToOne, ⟨none, "c", ["id"]⟩⟩], 3⟩,
          .marker "records" 4], [], none, 1⟩,
      ⟨none, "customers", some "c", [.column ⟨"id", none, [], 6⟩], [], none, 5⟩,
      ⟨none, "staff", some "staff", [.column ⟨"id", none, [], 8⟩], [], none, 7⟩]
  partials :=
    [⟨"records", [⟨"clerk", none, [.ref ⟨.manyToOne, ⟨none, "staff", ["id"]⟩⟩], 10⟩], [], none⟩]
  refs :=
    [⟨none, some ⟨none, "o", ["id"]⟩, .oneToOne, some ⟨some "public", "c", ["id"]⟩, none, none, 11⟩,
      ⟨none, some ⟨none, "c", ["id"]⟩, .oneToMany, some ⟨none, "o", ["buyer"]⟩, none, none, 12⟩]
  enums := []

theorem compile_spelledOut_orders :
    ordersDocument.spelledOut.refs.map (fun r => (r.left, r.right)) =
      [(some ⟨some "sales", "orders", ["id"]⟩, some ⟨some "public", "c", ["id"]⟩),
        (some ⟨some "public", "customers", ["id"]⟩, some ⟨some "sales", "orders", ["buyer"]⟩)] ∧
    ∃ c, compile {} ordersDocument = .ok c ∧ compile {} ordersDocument.spelledOut = .ok c ∧
      c.warnings = [.danglingRef 11 "public.c"] ∧
      c.diagram.edges.map Edge.id = ["e-public.customers-sales.orders-1-0",
        "e-sales.orders-public.customers-2-0", "e-sales.orders-public.staff-3-0"] ∧
      ∀ j u, ordersDocument.tables[j]? = some u → u.name = "staff" → 2 = j := by
  have hrefs : ordersDocument.spelledOut.refs.map (fun r => (r.left, r.right)) =
      [(some ⟨some "sales", "orders", ["id"]⟩, some ⟨some "public", "c", ["id"]⟩),
        (some ⟨some "public", "customers", ["id"]⟩, some ⟨some "sales", "orders", ["buyer"]⟩)] := by
    decide +kernel
  have heval : (compile {} ordersDocument).toOption.map
      (fun c => (c.warnings, c.diagram.edges.map Edge.id)) =
        some ([.danglingRef 11 "public.c"], ["e-public.customers-sales.orders-1-0",
          "e-sales.orders-public.customers-2-0", "e-sales.orders-public.staff-3-0"]) := by
    decide +kernel
  obtain ⟨c, hc, hresult⟩ := exists_ok_of_map_toOption heval
  obtain ⟨hwarnings, hedges⟩ := Prod.mk.inj hresult
  have hclear : ∀ shorthand table other line,
      compile {} ordersDocument ≠ .error (.aliasConflict shorthand table other line) := by
    simp [hc]
  obtain ⟨hsame, hone⟩ := compile_spelledOut hclear
  exact ⟨hrefs, c, hc, hsame.trans hc, hwarnings, hedges, fun j u hu hname =>
    hone 2 j _ u "staff" rfl hu rfl (.inl hname)⟩

end SchemaGraph
