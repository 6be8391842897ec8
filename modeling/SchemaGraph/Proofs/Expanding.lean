import SchemaGraph.Proofs.Compilation

/-!
# Expansion as a function

A marker that no partial goes by is the only thing that can keep a table from being expanded, and
only in strict mode. Where such a marker stands for nothing, every table has one expansion
(`Table.expansion`), and strict mode is no more than a look at its warnings: a table can be expanded
in strict mode when its expansion has none, and its expansion is the same (`expand_eq_ok_iff`). The
tables of a document can be expanded together when each one can and their ids differ
(`expandAll_eq_ok_iff`).
-/

namespace SchemaGraph

namespace Expansion

/-- Go on with one item of the table's body, where an unknown marker stands for nothing. -/
def step (partials : List Partial) (e : Expansion) : TableItem → Expansion
  | .column c => { e with columns := e.columns ++ [c] }
  | .marker name line =>
    match findPartial? partials name with
    | some p => e.inject p
    | none => { e with warnings := e.warnings ++ [.unknownPartial e.id name line] }

/-- An item can be gone on with, in strict mode only if it is no unknown marker. -/
theorem addItem_eq_ok_iff {strict : Bool} {partials : List Partial} {e e' : Expansion}
    {item : TableItem} : e.addItem strict partials item = .ok e' ↔
      e' = e.step partials item ∧
        (strict = true → item.unknownWarning? partials e.id = none) := by
  cases item with
  | column c =>
    simp only [addItem, step, TableItem.unknownWarning?, implies_true, and_true, Except.ok.injEq]
    exact eq_comm
  | marker name line =>
    cases hp : findPartial? partials name with
    | some p =>
      have hmem : name ∈ partials.map Partial.name := by
        by_contra hn
        rw [findPartial?_eq_none_iff.mpr hn] at hp
        cases hp
      simp only [addItem, step, hp, TableItem.unknownWarning?, if_pos hmem, implies_true, and_true,
        Except.ok.injEq]
      exact eq_comm
    | none =>
      have hmem := findPartial?_eq_none_iff.mp hp
      simp only [addItem, step, hp, TableItem.unknownWarning?, if_neg hmem]
      cases strict with
      | true => simp
      | false => simp [eq_comm]

theorem table_step (partials : List Partial) (e : Expansion) (item : TableItem) :
    (e.step partials item).table = e.table := by
  have h : e.addItem false partials item = .ok (e.step partials item) :=
    addItem_eq_ok_iff.mpr ⟨rfl, nofun⟩
  exact (addItem_spec h).1

theorem id_step (partials : List Partial) (e : Expansion) (item : TableItem) :
    (e.step partials item).id = e.id := by
  rw [id, id, table_step]

/-- Items can be gone on with one after the other, in strict mode only if none of them is an unknown
marker. -/
theorem foldlM_addItem_eq_ok_iff {strict : Bool} {partials : List Partial} {e e' : Expansion}
    {items : List TableItem} : items.foldlM (addItem strict partials) e = .ok e' ↔
      e' = items.foldl (step partials) e ∧
        (strict = true → ∀ item ∈ items, item.unknownWarning? partials e.id = none) := by
  induction items generalizing e with
  | nil =>
    rw [List.foldlM_nil, pure_eq_ok_iff]
    simp [eq_comm]
  | cons item items ih =>
    simp only [List.foldlM_cons, bind_eq_ok_iff, addItem_eq_ok_iff, ih, List.foldl_cons,
      List.forall_mem_cons]
    constructor
    · rintro ⟨_, ⟨rfl, hitem⟩, rfl, hitems⟩
      exact ⟨rfl, fun hs => ⟨hitem hs, id_step partials e item ▸ hitems hs⟩⟩
    · rintro ⟨rfl, hall⟩
      refine ⟨_, ⟨rfl, fun hs => (hall hs).1⟩, rfl, fun hs => ?_⟩
      rw [id_step]
      exact (hall hs).2

end Expansion

/-- **The expansion of a table**, where unknown markers stand for nothing. -/
def Table.expansion (partials : List Partial) (t : Table) : Expansion :=
  t.items.foldl (Expansion.step partials) ⟨t, [], t.indexes, []⟩

/-- Without strict mode every table can be expanded. -/
theorem expand_lenient (partials : List Partial) (t : Table) :
    expand false partials t = .ok (t.expansion partials) :=
  Expansion.foldlM_addItem_eq_ok_iff.mpr ⟨rfl, nofun⟩

namespace Table

variable (partials : List Partial) (t : Table)

@[simp]
theorem table_expansion : (t.expansion partials).table = t :=
  (expand_spec (expand_lenient partials t)).1

@[simp]
theorem id_expansion : (t.expansion partials).id = t.id := by
  rw [Expansion.id, table_expansion]

theorem warnings_expansion : (t.expansion partials).warnings =
    t.items.filterMap (TableItem.unknownWarning? partials t.id) :=
  (expand_spec (expand_lenient partials t)).2

end Table

/-- In strict mode a table can be expanded when its expansion warns of nothing. -/
theorem expand_eq_ok_iff {strict : Bool} {partials : List Partial} {t : Table} {e : Expansion} :
    expand strict partials t = .ok e ↔
      e = t.expansion partials ∧ (strict = true → e.warnings = []) := by
  have hwarnings : (t.expansion partials).warnings = [] ↔
      ∀ item ∈ t.items, item.unknownWarning? partials t.id = none := by
    rw [Table.warnings_expansion, List.filterMap_eq_nil_iff]
  rw [expand, Expansion.foldlM_addItem_eq_ok_iff]
  constructor
  · rintro ⟨rfl, hitems⟩
    exact ⟨rfl, fun hs => hwarnings.mpr (hitems hs)⟩
  · rintro ⟨rfl, hnone⟩
    exact ⟨rfl, fun hs => hwarnings.mp (hnone hs)⟩

/-- **The tables of a document can be expanded** when their ids differ and, in strict mode, their
expansions warn of nothing. -/
theorem expandAll_eq_ok_iff {strict : Bool} {d : Document} {tables : List Expansion} :
    expandAll strict d = .ok tables ↔
      tables = d.tables.map (Table.expansion d.partials) ∧ (d.tables.map Table.id).Nodup ∧
        (strict = true → ∀ e ∈ tables, e.warnings = []) := by
  simp only [expandAll, expandFrom_eq_ok_iff, expand_eq_ok_iff, forall₂_eq_and_iff,
    List.not_mem_nil, not_false_eq_true, implies_true, and_true]
  constructor
  · rintro ⟨⟨htables, hnone⟩, hids⟩
    exact ⟨htables, hids, fun hs e he => hnone e he hs⟩
  · rintro ⟨htables, hids, hnone⟩
    exact ⟨⟨htables, fun e he hs => hnone hs e he⟩, hids⟩

/-- Where each table that is changed has a changed expansion, so have all of them together. -/
theorem expandFrom_map {f : Table → Table} {g : Expansion → Expansion} {strict : Bool}
    {partials partials' : List Partial} {taken : List String} {tables : List Table}
    (hid : ∀ t, (f t).id = t.id)
    (hexpand : ∀ t, expand strict partials' (f t) = (expand strict partials t).map g) :
    expandFrom strict partials' taken (tables.map f) =
      (expandFrom strict partials taken tables).map (List.map g) := by
  induction tables generalizing taken with
  | nil => rfl
  | cons t tables ih =>
    rw [List.map_cons, expandFrom, expandFrom, hid, hexpand, ih]
    by_cases htaken : t.id ∈ taken
    · rw [if_pos htaken, if_pos htaken]
      rfl
    · rw [if_neg htaken, if_neg htaken]
      cases expand strict partials t with
      | error e => rfl
      | ok first => cases expandFrom strict partials (t.id :: taken) tables <;> rfl

/-- Every warning about a table is about one of its unknown markers. -/
theorem exists_of_mem_warnings {partials : List Partial} {t : Table} {w : CompileWarning}
    (h : w ∈ (t.expansion partials).warnings) :
    ∃ name line, TableItem.marker name line ∈ t.items ∧ name ∉ partials.map Partial.name ∧
      w = .unknownPartial t.id name line := by
  rw [Table.warnings_expansion, List.mem_filterMap] at h
  obtain ⟨item, hitem, hw⟩ := h
  cases item with
  | column c => cases hw
  | marker name line =>
    simp only [TableItem.unknownWarning?, Option.ite_none_left_eq_some, Option.some.injEq] at hw
    exact ⟨name, line, hitem, hw.1, hw.2.symm⟩

end SchemaGraph
