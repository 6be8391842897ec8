import Mathlib.Data.List.Nodup
import SchemaGraph.Diagnostic.Analysis
import SchemaGraph.Proofs.Aliases

/-!
# What catalogs list

An ordered map holds the value that a name was given last, at the place of the name's first value;
names that are new to it stand behind the others, in order. So a catalog of a diagram lists the
nodes, and then the aliases (`Catalog.ofDiagram_eq`). Aliases are resolved one after the other, and
each writes under its own name only: what is listed under a name that no alias has stays as it was
(`Catalog.get?_resolveAll_of_not_mem`), and where all aliases are new names, they stand behind the
tables, each with the columns of the table that it stands for (`Catalog.entries_resolveAll`).
-/

namespace SchemaGraph

/-! ### Ordered maps -/

namespace OrderedMap

variable {α : Type} {name k : String} {value : α}

theorem lookup_put (entries : List (String × α)) :
    (put name value entries).lookup k = if k = name then some value else entries.lookup k := by
  induction entries with
  | nil =>
    by_cases hk : k = name
    · simp [put, hk]
    · simp [put, hk, List.lookup_cons, beq_eq_false_iff_ne.mpr hk]
  | cons e rest ih =>
    obtain ⟨n, v⟩ := e
    by_cases hn : n = name
    · subst hn
      by_cases hk : k = n
      · simp [put, hk]
      · simp [put, hk, List.lookup_cons, beq_eq_false_iff_ne.mpr hk]
    · rw [put, if_neg hn, List.lookup_cons, List.lookup_cons, ih]
      by_cases hk : k = n
      · have hkname : ¬ k = name := fun h => hn (hk.symm.trans h)
        simp [hk, if_neg hn]
      · simp [beq_eq_false_iff_ne.mpr hk]

theorem put_of_not_mem {entries : List (String × α)} (h : name ∉ entries.map Prod.fst) :
    put name value entries = entries ++ [(name, value)] := by
  induction entries with
  | nil => rfl
  | cons e rest ih =>
    obtain ⟨n, v⟩ := e
    obtain ⟨hn, hrest⟩ := not_or.mp (mt List.mem_cons.mpr h)
    rw [put, if_neg (Ne.symm hn), ih hrest, List.cons_append]

@[simp]
theorem get?_insert (m : OrderedMap α) :
    (m.insert name value).get? k = if k = name then some value else m.get? k :=
  lookup_put m.entries

theorem lookup_filter_ne (entries : List (String × α)) :
    (entries.filter (·.1 != name)).lookup k = if k = name then none else entries.lookup k := by
  induction entries with
  | nil => simp
  | cons e rest ih =>
    obtain ⟨n, v⟩ := e
    by_cases hn : n = name
    · subst hn
      by_cases hk : k = n
      · simpa [hk] using ih
      · simpa [hk, List.lookup_cons, beq_eq_false_iff_ne.mpr hk] using ih
    · by_cases hk : k = n
      · subst hk
        simp [hn]
      · simpa [hn, List.lookup_cons, beq_eq_false_iff_ne.mpr hk] using ih

@[simp]
theorem get?_erase (m : OrderedMap α) :
    (m.erase name).get? k = if k = name then none else m.get? k :=
  lookup_filter_ne m.entries

theorem insert_insert (m : OrderedMap α) (value' : α) :
    (m.insert name value).insert name value' = m.insert name value' := by
  have hput : ∀ entries : List (String × α),
      put name value' (put name value entries) = put name value' entries := by
    intro entries
    induction entries with
    | nil => simp [put]
    | cons e rest ih =>
      obtain ⟨n, v⟩ := e
      by_cases hn : n = name
      · simp [put, hn]
      · simp [put, hn, ih]
  unfold insert
  congr 1
  exact hput m.entries

theorem names_insert (m : OrderedMap α) : (m.insert name value).names =
    if name ∈ m.names then m.names else m.names ++ [name] :=
  map_fst_put name value m.entries

theorem mem_names_insert {m : OrderedMap α} :
    k ∈ (m.insert name value).names ↔ k = name ∨ k ∈ m.names := by
  rw [names_insert]
  by_cases hname : name ∈ m.names
  · rw [if_pos hname]
    exact ⟨.inr, fun h => h.elim (fun hk => hk ▸ hname) (fun hk => hk)⟩
  · rw [if_neg hname, List.mem_append, List.mem_singleton, or_comm]

theorem get?_eq_none_iff {m : OrderedMap α} : m.get? k = none ↔ k ∉ m.names := by
  rw [get?, names, List.lookup_eq_none_iff, List.mem_map]
  simp only [bne_iff_ne, not_exists, not_and]
  exact forall₂_congr fun _ _ => ne_comm

theorem mem_names_iff {m : OrderedMap α} : k ∈ m.names ↔ ∃ v, m.get? k = some v := by
  rw [← not_iff_not, ← get?_eq_none_iff, Option.eq_none_iff_forall_ne_some, not_exists]

/-- A map with entries given one after the other. -/
def insertAll (m : OrderedMap α) (entries : List (String × α)) : OrderedMap α :=
  entries.foldl (fun m e => m.insert e.1 e.2) m

theorem insertAll_append (m : OrderedMap α) (entries others : List (String × α)) :
    m.insertAll (entries ++ others) = (m.insertAll entries).insertAll others :=
  List.foldl_append

/-- New names stand behind the others. -/
theorem entries_insertAll {m : OrderedMap α} {entries : List (String × α)}
    (h : (m.names ++ entries.map Prod.fst).Nodup) :
    (m.insertAll entries).entries = m.entries ++ entries := by
  induction entries generalizing m with
  | nil => exact (List.append_nil _).symm
  | cons e rest ih =>
    obtain ⟨name, value⟩ := e
    have hname : name ∉ m.names := fun hmem =>
      List.nodup_append.mp h |>.2.2 name hmem name List.mem_cons_self rfl
    have hentries : (m.insert name value).entries = m.entries ++ [(name, value)] :=
      put_of_not_mem hname
    have hnames : (m.insert name value).names = m.names ++ [name] := by
      rw [names_insert, if_neg hname]
    change ((m.insert name value).insertAll rest).entries = _
    rw [ih, hentries, List.append_assoc, List.singleton_append]
    rwa [hnames, List.append_assoc, List.singleton_append]

end OrderedMap

/-! ### Catalogs -/

/-- The columns of a node, under its id. -/
def Node.listed (n : Node) : String × List String :=
  (n.id, n.columns.map NodeColumn.name)

namespace Catalog

/-- The catalog that lists tables and aliases, before any alias is resolved. -/
def listing (tables : List (String × List String)) (aliases : List (String × String)) :
    Catalog where
  tables := OrderedMap.empty.insertAll tables
  aliases := OrderedMap.empty.insertAll aliases

/-- A catalog lists the alias of a table, if it has one. -/
theorem addShorthand_eq (c : Catalog) (t : Table) : (t.shorthand.map (c.addAlias · t.id)).getD c =
    { c with aliases := c.aliases.insertAll (declaredAliases [t]) } := by
  unfold declaredAliases
  rw [List.filterMap_cons]
  cases t.shorthand <;> rfl

/-- The catalog of a diagram lists its nodes and the aliases of tables. -/
theorem ofDiagram_eq (d : Diagram) (tables : List Table) :
    ofDiagram d tables =
      (listing (d.nodes.map Node.listed) (declaredAliases tables)).resolveAliases := by
  have hnodes : ∀ c : Catalog, d.nodes.foldl
      (fun c n => c.addTable n.id (n.columns.map NodeColumn.name)) c =
        { c with tables := c.tables.insertAll (d.nodes.map Node.listed) } := by
    induction d.nodes with
    | nil => exact fun _ => rfl
    | cons n ns ih => exact fun c => ih (c.addTable n.id (n.columns.map NodeColumn.name))
  have haliases : ∀ c : Catalog, tables.foldl
      (fun c t => (t.shorthand.map (c.addAlias · t.id)).getD c) c =
        { c with aliases := c.aliases.insertAll (declaredAliases tables) } := by
    induction tables with
    | nil => exact fun _ => rfl
    | cons t ts ih =>
      intro c
      have hdeclared : declaredAliases (t :: ts) = declaredAliases [t] ++ declaredAliases ts :=
        declaredAliases_append [t] ts
      rw [List.foldl_cons, ih, addShorthand_eq, hdeclared, OrderedMap.insertAll_append]
  rw [ofDiagram, hnodes, haliases]
  rfl

/-! ### Resolving aliases -/

/-- A catalog with some aliases resolved one after the other. -/
def resolveAll (c : Catalog) (aliases : List (String × String)) : Catalog :=
  aliases.foldl resolveAlias c

variable {c : Catalog} {k : String} {es : List (String × String)}

theorem get?_resolveAlias (c : Catalog) (e : String × String) :
    (c.resolveAlias e).tables.get? k =
      if k = e.1 then (c.tables.get? e.2).or (c.tables.get? k) else c.tables.get? k := by
  unfold resolveAlias
  cases c.tables.get? e.2 with
  | none => simp
  | some columns => simp [addTable]

@[simp]
theorem aliases_resolveAll (c : Catalog) (es : List (String × String)) :
    (c.resolveAll es).aliases = c.aliases := by
  induction es generalizing c with
  | nil => rfl
  | cons e es ih =>
    refine (ih _).trans ?_
    unfold resolveAlias
    split <;> rfl

/-- What is listed under a name that no alias has stays as it was. -/
theorem get?_resolveAll_of_not_mem (h : k ∉ es.map Prod.fst) :
    (c.resolveAll es).tables.get? k = c.tables.get? k := by
  induction es generalizing c with
  | nil => rfl
  | cons e es ih =>
    obtain ⟨he, hes⟩ := not_or.mp (mt List.mem_cons.mpr h)
    rw [resolveAll, List.foldl_cons]
    exact (ih hes).trans ((get?_resolveAlias c e).trans (if_neg he))

/-- Nothing that was listed is dropped. -/
theorem mem_names_resolveAll (h : k ∈ c.tables.names) : k ∈ (c.resolveAll es).tables.names := by
  induction es generalizing c with
  | nil => exact h
  | cons e es ih =>
    refine ih ?_
    obtain ⟨columns, hk⟩ := OrderedMap.mem_names_iff.mp h
    rw [OrderedMap.mem_names_iff, get?_resolveAlias, hk]
    split
    · cases c.tables.get? e.2 <;> exact ⟨_, rfl⟩
    · exact ⟨columns, rfl⟩

theorem resolveAll_append (c : Catalog) (es fs : List (String × String)) :
    c.resolveAll (es ++ fs) = (c.resolveAll es).resolveAll fs :=
  List.foldl_append

/-- An alias has the columns that its table had at its turn. -/
theorem get?_resolveAll_append_cons {table : String} {before after : List (String × String)}
    (htable : table ∈ c.tables.names) (hlast : k ∉ after.map Prod.fst) :
    (c.resolveAll (before ++ (k, table) :: after)).tables.get? k =
      (c.resolveAll before).tables.get? table := by
  have hlisted : table ∈ (c.resolveAll before).tables.names := mem_names_resolveAll htable
  obtain ⟨columns, hcolumns⟩ := OrderedMap.mem_names_iff.mp hlisted
  have hturn := get?_resolveAlias (k := k) (c.resolveAll before) (k, table)
  rw [if_pos rfl, hcolumns, Option.some_or] at hturn
  rw [resolveAll_append, resolveAll, List.foldl_cons, hcolumns]
  exact (get?_resolveAll_of_not_mem hlast).trans hturn

/-- Nothing is listed under any name that was not listed under some name. -/
theorem exists_get?_of_resolveAll {columns : List String}
    (h : (c.resolveAll es).tables.get? k = some columns) :
    ∃ k', c.tables.get? k' = some columns := by
  induction es generalizing c with
  | nil => exact ⟨k, h⟩
  | cons e es ih =>
    obtain ⟨k', hk'⟩ := ih (c := c.resolveAlias e) h
    rw [get?_resolveAlias] at hk'
    split at hk'
    · exact (Option.or_eq_some_iff.mp hk').elim (⟨e.2, ·⟩) fun hk => ⟨k', hk.2⟩
    · exact ⟨k', hk'⟩

/-- Aliases that are new names stand behind the tables, each with the columns of its table. -/
theorem entries_resolveAll (columns : String → List String)
    (hnames : (c.tables.names ++ es.map Prod.fst).Nodup)
    (htargets : ∀ e ∈ es, c.tables.get? e.2 = some (columns e.2)) :
    (c.resolveAll es).tables.entries = c.tables.entries ++ es.map fun e => (e.1, columns e.2) := by
  induction es generalizing c with
  | nil => exact (List.append_nil _).symm
  | cons e es ih =>
    obtain ⟨he, hes⟩ := List.forall_mem_cons.mp htargets
    have hnew : e.1 ∉ c.tables.names := fun hmem =>
      List.nodup_append.mp hnames |>.2.2 e.1 hmem e.1 List.mem_cons_self rfl
    have hstep : c.resolveAlias e = c.addTable e.1 (columns e.2) := by
      rw [resolveAlias, he]
    have hentries : (c.addTable e.1 (columns e.2)).tables.entries =
        c.tables.entries ++ [(e.1, columns e.2)] := OrderedMap.put_of_not_mem hnew
    have hlisted : (c.addTable e.1 (columns e.2)).tables.names = c.tables.names ++ [e.1] := by
      rw [addTable, OrderedMap.names_insert, if_neg hnew]
    rw [resolveAll, List.foldl_cons, hstep]
    refine (ih ?_ fun e' he' => ?_).trans ?_
    · rwa [hlisted, List.append_assoc, List.singleton_append]
    · -- the table of another alias is not listed under the name of this one
      have hne : ¬ e'.2 = e.1 := by
        intro heq
        exact hnew (OrderedMap.mem_names_iff.mpr ⟨_, heq ▸ hes e' he'⟩)
      rw [addTable, OrderedMap.get?_insert, if_neg hne, hes e' he']
    · rw [hentries, List.append_assoc, List.singleton_append, List.map_cons]

end Catalog

end SchemaGraph
