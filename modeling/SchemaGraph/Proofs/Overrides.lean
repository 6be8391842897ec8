import SchemaGraph.Proofs.CompletionScope
import SchemaGraph.Proofs.Unfolding

/-!
# Which injected column overrides which

A table is expanded item by item, and a column that is injected takes the place of an earlier one
with its name. What comes of this can be said without the order of events. Each item of the table
contributes a piece of the columns (`Table.contribution`). A column contributes itself. A marker
contributes the names that its partial provides, in the order in which they first appear there, but
for those that the table declares itself or that an earlier marker provides; and each of these names
is defined by the last column that any marker provides under it. The columns of the expanded table
are these pieces, one behind the other (`columns_override`).

The two rules, first place and last definition, are those of one operation on columns: some of them
are put over others (`overlay`). Injecting a partial is this operation (`foldl_injectColumn`), and
injecting one after the other is to put both over the columns at once (`overlay_append`).
-/

namespace SchemaGraph

/-! ### Names and definitions -/

/-- The last of some columns that has a given name. -/
def lastNamed? (cs : List Column) (name : String) : Option Column :=
  cs.reverse.find? (·.name == name)

/-- The names of columns that are not taken, each where it first appears. -/
def newNames (taken : List String) (cs : List Column) : List String :=
  ((cs.map Column.name).filter (· ∉ taken)).eraseDups

section Names

variable {cs ds : List Column} {c : Column} {x : String} {taken taken' : List String}

theorem lastNamed?_append :
    lastNamed? (cs ++ ds) x = (lastNamed? ds x).or (lastNamed? cs x) := by
  simp [lastNamed?, List.find?_append]

theorem lastNamed?_singleton : lastNamed? [c] x = if c.name = x then some c else none := by
  by_cases h : c.name = x <;> simp [lastNamed?, h]

theorem name_of_lastNamed? (h : lastNamed? cs x = some c) : c.name = x := by
  simpa using List.find?_some h

theorem lastNamed?_eq_none_iff : lastNamed? cs x = none ↔ x ∉ cs.map Column.name := by
  simp [lastNamed?]

theorem exists_lastNamed? (h : x ∈ cs.map Column.name) :
    ∃ c, lastNamed? cs x = some c ∧ c.name = x := by
  cases hc : lastNamed? cs x with
  | none => exact absurd h (lastNamed?_eq_none_iff.mp hc)
  | some c => exact ⟨c, rfl, name_of_lastNamed? hc⟩

/-- Looking names up that are there gives columns of these names. -/
theorem map_name_filterMap_lastNamed? {xs : List String} (h : ∀ x ∈ xs, x ∈ cs.map Column.name) :
    (xs.filterMap (lastNamed? cs)).map Column.name = xs := by
  induction xs with
  | nil => rfl
  | cons x xs ih =>
    obtain ⟨hx, hxs⟩ := List.forall_mem_cons.mp h
    obtain ⟨c, hc, hname⟩ := exists_lastNamed? hx
    rw [List.filterMap_cons_some hc, List.map_cons, hname, ih hxs]

theorem mem_newNames : x ∈ newNames taken cs ↔ x ∈ cs.map Column.name ∧ x ∉ taken := by
  simp [newNames, List.mem_eraseDups]

theorem nodup_newNames : (newNames taken cs).Nodup := by
  unfold newNames
  induction (cs.map Column.name).filter (· ∉ taken) using List.reverseRecOn with
  | nil => exact List.nodup_nil
  | append_singleton xs x ih =>
    rw [List.eraseDups_append]
    by_cases hx : x ∈ xs
    · simpa [List.removeAll, hx] using ih
    · have hlast : [x].removeAll xs = [x] := by simp [List.removeAll, hx]
      rw [hlast, List.nodup_append_comm]
      exact List.nodup_cons.mpr ⟨mt List.mem_eraseDups.mp hx, ih⟩

theorem newNames_append : newNames taken (cs ++ ds) =
    newNames taken cs ++ newNames (taken ++ cs.map Column.name) ds := by
  unfold newNames
  rw [List.map_append, List.filter_append, List.eraseDups_append, List.removeAll,
    List.filter_filter]
  congr 2
  refine List.filter_congr fun x _ => ?_
  rw [Bool.eq_iff_iff]
  by_cases hx : x ∈ taken <;> simp [hx]

theorem newNames_singleton : newNames taken [c] = if c.name ∈ taken then [] else [c.name] := by
  by_cases h : c.name ∈ taken
  · simp [newNames, h]
  · simp [newNames, h, List.eraseDups_cons]

/-- Only those of the taken names matter that the columns have. -/
theorem newNames_congr (h : ∀ x ∈ cs.map Column.name, x ∈ taken ↔ x ∈ taken') :
    newNames taken cs = newNames taken' cs := by
  unfold newNames
  congr 1
  refine List.filter_congr fun x hx => ?_
  simp only [h x hx]

end Names

/-! ### Columns over columns -/

/-- A column as others define it anew, if one of them has its name. -/
def redefinedBy (upper : List Column) (c : Column) : Column :=
  (lastNamed? upper c.name).getD c

/-- **Columns put over others**: the others stay where they are, redefined by those of their names,
and the remaining names follow, in the order in which they first appear. A name that comes more than
once is defined by the last column that has it. -/
def overlay (upper cs : List Column) : List Column :=
  cs.map (redefinedBy upper) ++
    (newNames (cs.map Column.name) upper).filterMap (lastNamed? upper)

section Overlay

variable {ps qs cs : List Column} {c : Column} {x : String}

@[simp]
theorem name_redefinedBy : (redefinedBy ps c).name = c.name := by
  unfold redefinedBy
  cases h : lastNamed? ps c.name with
  | none => rfl
  | some d => exact name_of_lastNamed? h

theorem redefinedBy_of_not_mem (h : c.name ∉ ps.map Column.name) : redefinedBy ps c = c := by
  rw [redefinedBy, lastNamed?_eq_none_iff.mpr h, Option.getD_none]

theorem redefinedBy_append : redefinedBy (ps ++ qs) c = redefinedBy qs (redefinedBy ps c) := by
  rw [redefinedBy, redefinedBy, name_redefinedBy, lastNamed?_append]
  cases lastNamed? qs c.name <;> rfl

/-- The last definition of a name, redefined, is the last one of all. -/
theorem map_redefinedBy_filterMap {xs : List String} (h : ∀ x ∈ xs, x ∈ ps.map Column.name) :
    (xs.filterMap (lastNamed? ps)).map (redefinedBy qs) =
      xs.filterMap (lastNamed? (ps ++ qs)) := by
  rw [List.map_filterMap]
  refine List.filterMap_congr fun x hx => ?_
  obtain ⟨c, hc, hname⟩ := exists_lastNamed? (h x hx)
  rw [lastNamed?_append, hc, Option.map_some, redefinedBy, hname]
  cases lastNamed? qs x <;> rfl

theorem names_overlay : (overlay ps cs).map Column.name =
    cs.map Column.name ++ newNames (cs.map Column.name) ps := by
  rw [overlay, List.map_append, List.map_map,
    map_name_filterMap_lastNamed? fun x hx => (mem_newNames.mp hx).1]
  congr 1
  exact List.map_congr_left fun c _ => name_redefinedBy

theorem mem_names_overlay : x ∈ (overlay ps cs).map Column.name ↔
    x ∈ cs.map Column.name ∨ x ∈ ps.map Column.name := by
  rw [names_overlay, List.mem_append, mem_newNames]
  tauto

@[simp]
theorem overlay_nil : overlay [] cs = cs := by
  have hsame : cs.map (redefinedBy []) = cs := List.map_id cs
  simp [overlay, newNames, hsame]

/-- Columns put over others, redefined once more. -/
theorem map_redefinedBy_overlay : (overlay ps cs).map (redefinedBy qs) =
    cs.map (redefinedBy (ps ++ qs)) ++
      (newNames (cs.map Column.name) ps).filterMap (lastNamed? (ps ++ qs)) := by
  rw [overlay, List.map_append, List.map_map,
    map_redefinedBy_filterMap fun x hx => (mem_newNames.mp hx).1]
  congr 1
  exact List.map_congr_left fun c _ => redefinedBy_append.symm

/-- Columns are put over others one after the other, or all at once. -/
theorem overlay_append : overlay (ps ++ qs) cs = overlay qs (overlay ps cs) := by
  have hnew : newNames (cs.map Column.name ++ ps.map Column.name) qs =
      newNames ((overlay ps cs).map Column.name) qs :=
    newNames_congr fun x _ => by rw [mem_names_overlay, List.mem_append]
  have hlast : (newNames ((overlay ps cs).map Column.name) qs).filterMap (lastNamed? (ps ++ qs)) =
      (newNames ((overlay ps cs).map Column.name) qs).filterMap (lastNamed? qs) := by
    refine List.filterMap_congr fun x hx => ?_
    obtain ⟨c, hc, -⟩ := exists_lastNamed? (mem_newNames.mp hx).1
    rw [lastNamed?_append, hc, Option.some_or]
  calc overlay (ps ++ qs) cs
      = cs.map (redefinedBy (ps ++ qs)) ++
          ((newNames (cs.map Column.name) ps).filterMap (lastNamed? (ps ++ qs)) ++
            (newNames ((overlay ps cs).map Column.name) qs).filterMap (lastNamed? (ps ++ qs))) := by
        rw [overlay, newNames_append, List.filterMap_append, hnew]
    _ = (overlay ps cs).map (redefinedBy qs) ++
          (newNames ((overlay ps cs).map Column.name) qs).filterMap (lastNamed? qs) := by
        rw [hlast, map_redefinedBy_overlay, List.append_assoc]
    _ = overlay qs (overlay ps cs) := rfl

/-- Putting a column in the place of the one with its name is to put it over the others, if no two
of them have its name. -/
theorem putColumn_eq_overlay (h : (cs.map Column.name).count c.name ≤ 1) :
    putColumn c cs = overlay [c] cs := by
  induction cs with
  | nil => simp [putColumn, overlay, newNames_singleton, lastNamed?_singleton]
  | cons d cs ih =>
    rw [List.map_cons, List.count_cons] at h
    by_cases hd : d.name = c.name
    · have hrest : c.name ∉ cs.map Column.name := by
        rw [if_pos (by simpa using hd)] at h
        exact List.count_eq_zero.mp (by omega)
      have hsame : cs.map (redefinedBy [c]) = cs := by
        refine (List.map_congr_left fun e he => ?_).trans (List.map_id cs)
        refine redefinedBy_of_not_mem ?_
        simp only [List.map_cons, List.map_nil, List.mem_singleton]
        exact fun hname => hrest (hname ▸ List.mem_map_of_mem he)
      rw [putColumn, if_pos hd, overlay, newNames_singleton, List.map_cons, List.map_cons, hsame,
        if_pos (by simp [hd]), redefinedBy, hd, lastNamed?_singleton, if_pos rfl]
      simp
    · have hcount : (cs.map Column.name).count c.name ≤ 1 := by omega
      have hkept : redefinedBy [c] d = d := redefinedBy_of_not_mem (by simpa using hd)
      rw [putColumn, if_neg hd, ih hcount, overlay, overlay, newNames_singleton, newNames_singleton,
        List.map_cons, List.map_cons, hkept, List.cons_append]
      simp [Ne.symm hd]

end Overlay

/-! ### Injecting columns -/

/-- Names that are not reserved come at most once. -/
def DistinctBeside (reserved : List String) (cs : List Column) : Prop :=
  ((cs.map Column.name).filter (· ∉ reserved)).Nodup

theorem DistinctBeside.overlay {reserved : List String} {ps cs : List Column}
    (h : DistinctBeside reserved cs) : DistinctBeside reserved (overlay ps cs) := by
  unfold DistinctBeside
  rw [names_overlay, List.filter_append, List.nodup_append]
  refine ⟨h, nodup_newNames.filter _, fun x hx y hy hxy => ?_⟩
  exact (mem_newNames.mp (List.mem_filter.mp hy).1).2 (hxy ▸ (List.mem_filter.mp hx).1)

/-- Columns are injected by putting those over the others that have no reserved name. -/
theorem foldl_injectColumn {reserved : List String} {ps cs : List Column}
    (h : DistinctBeside reserved cs) :
    ps.foldl (injectColumn reserved) cs = overlay (ps.filter (·.name ∉ reserved)) cs := by
  induction ps generalizing cs with
  | nil => simp
  | cons c ps ih =>
    by_cases hc : c.name ∈ reserved
    · rw [List.foldl_cons, injectColumn, if_pos hc, ih h, List.filter_cons_of_neg (by simpa)]
    · have hcount : (cs.map Column.name).count c.name ≤ 1 := by
        rw [← List.count_filter (p := (· ∉ reserved)) (by simpa)]
        exact List.nodup_iff_count_le_one.mp h _
      rw [List.foldl_cons, injectColumn, if_neg hc, putColumn_eq_overlay hcount, ih h.overlay,
        List.filter_cons_of_pos (by simpa), ← overlay_append, List.singleton_append]

/-! ### Pieces of a table -/

/-- The columns that an item of a table brings in: those of the partial that a marker names. -/
def TableItem.injectedColumns (partials : List Partial) : TableItem → List Column
  | .column _ => []
  | .marker name _ => ((findPartial? partials name).map Partial.columns).getD []

namespace Table

/-- **What an item contributes** to the columns of a table, behind the items before it. A column
contributes itself. A marker contributes the names that its partial provides, in the order in which
they first appear there, but for those that the table declares or an earlier marker provides; and
each of them stands for the last column that any marker of the table provides under it. -/
def contribution (partials : List Partial) (t : Table) (before : List TableItem) :
    TableItem → List Column
  | .column c => [c]
  | .marker name line =>
    (newNames (t.columns.map Column.name ++
        (before.flatMap (TableItem.injectedColumns partials)).map Column.name)
      ((TableItem.marker name line).injectedColumns partials)).filterMap
        (lastNamed? (t.items.flatMap (TableItem.injectedColumns partials)))

/-- The columns that items can inject: those that they bring in under names that the table does not
declare itself. -/
def provided (partials : List Partial) (t : Table) (items : List TableItem) : List Column :=
  (items.flatMap (TableItem.injectedColumns partials)).filter
    (·.name ∉ t.columns.map Column.name)

variable {partials : List Partial} {t : Table} {before items : List TableItem} {x : String}

theorem name_mem_of_column_mem {c : Column} (h : TableItem.column c ∈ t.items) :
    c.name ∈ t.columns.map Column.name :=
  List.mem_map_of_mem (List.mem_filterMap.mpr ⟨_, h, rfl⟩)

theorem provided_append (xs ys : List TableItem) :
    t.provided partials (xs ++ ys) = t.provided partials xs ++ t.provided partials ys := by
  rw [provided, List.flatMap_append, List.filter_append]
  rfl

theorem provided_cons (item : TableItem) (items : List TableItem) :
    t.provided partials (item :: items) =
      t.provided partials [item] ++ t.provided partials items :=
  provided_append [item] items

theorem provided_singleton (item : TableItem) : t.provided partials [item] =
    (item.injectedColumns partials).filter (·.name ∉ t.columns.map Column.name) := by
  rw [provided, List.flatMap_singleton]

theorem mem_names_provided : x ∈ (t.provided partials items).map Column.name ↔
    x ∈ (items.flatMap (TableItem.injectedColumns partials)).map Column.name ∧
      x ∉ t.columns.map Column.name := by
  simp only [provided, List.mem_map, List.mem_filter, decide_eq_true_iff]
  constructor
  · rintro ⟨c, ⟨hc, hnot⟩, rfl⟩
    exact ⟨⟨c, hc, rfl⟩, hnot⟩
  · rintro ⟨⟨c, hc, rfl⟩, hnot⟩
    exact ⟨c, ⟨hc, hnot⟩, rfl⟩

/-- A column of the table is put elsewhere by nothing that is injected. -/
theorem redefinedBy_provided {c : Column} (h : c.name ∈ t.columns.map Column.name) :
    redefinedBy (t.provided partials items) c = c :=
  redefinedBy_of_not_mem fun hmem => (mem_names_provided.mp hmem).2 h

/-- Names that the table does not declare are defined by what can be injected. -/
theorem lastNamed?_provided (h : x ∉ t.columns.map Column.name) :
    lastNamed? (t.provided partials items) x =
      lastNamed? (items.flatMap (TableItem.injectedColumns partials)) x := by
  rw [lastNamed?, lastNamed?, provided, ← List.filter_reverse, List.find?_filter]
  congr 1
  funext c
  rw [Bool.eq_iff_iff, decide_eq_true_iff, decide_eq_true_iff, beq_iff_eq]
  exact and_iff_right_of_imp fun hname => hname ▸ h

/-- What a marker contributes, told by what can be injected. -/
theorem contribution_marker {name : String} {line : Nat} :
    t.contribution partials before (.marker name line) =
      (newNames ((t.provided partials before).map Column.name)
        (t.provided partials [.marker name line])).filterMap
          (lastNamed? (t.provided partials t.items)) := by
  have hnames : newNames ((t.provided partials before).map Column.name)
      (t.provided partials [.marker name line]) =
        newNames (t.columns.map Column.name ++
          (before.flatMap (TableItem.injectedColumns partials)).map Column.name)
          ((TableItem.marker name line).injectedColumns partials) := by
    rw [newNames, newNames, provided_singleton, List.filter_map, List.filter_map,
      List.filter_filter]
    congr 2
    refine List.filter_congr fun c _ => ?_
    rw [Bool.eq_iff_iff]
    by_cases hc : c.name ∈ t.columns.map Column.name <;>
      simp [-List.mem_map, mem_names_provided, hc]
  rw [contribution, hnames]
  refine List.filterMap_congr fun x hx => (lastNamed?_provided fun hmem => ?_).symm
  exact (mem_newNames.mp hx).2 (List.mem_append_left _ hmem)

/-- **What the columns of a table are like** when some of its items are expanded: beside the columns
of the table itself there is one of each name that these items can inject. -/
structure Laid (partials : List Partial) (t : Table) (before : List TableItem)
    (cs : List Column) : Prop where
  names : ∀ x ∉ t.columns.map Column.name,
    x ∈ cs.map Column.name ↔ x ∈ (t.provided partials before).map Column.name
  distinct : DistinctBeside (t.columns.map Column.name) cs

/-- The items before a column and after it are expanded around it. -/
theorem Laid.column {cs : List Column} {c : Column} (h : t.Laid partials before cs)
    (hc : c.name ∈ t.columns.map Column.name) :
    t.Laid partials (before ++ [.column c]) (cs ++ [c]) where
  names := by
    intro x hx
    have hne : x ≠ c.name := fun heq => hx (heq ▸ hc)
    have hprovided : t.provided partials [.column c] = [] := rfl
    rw [provided_append, hprovided, List.append_nil, ← h.names x hx, List.map_append,
      List.mem_append]
    simp [hne]
  distinct := by
    have hnone : [c.name].filter (· ∉ t.columns.map Column.name) = [] := by
      rw [List.filter_cons_of_neg (by simpa using hc), List.filter_nil]
    rw [DistinctBeside, List.map_append, List.filter_append, List.map_singleton, hnone,
      List.append_nil]
    exact h.distinct

theorem Laid.marker {cs : List Column} {name : String} {line : Nat}
    (h : t.Laid partials before cs) :
    t.Laid partials (before ++ [.marker name line])
      (overlay (t.provided partials [.marker name line]) cs) where
  names := by
    intro x hx
    rw [mem_names_overlay, provided_append, List.map_append, List.mem_append, h.names x hx]
  distinct := h.distinct.overlay

end Table

namespace Expansion

variable {partials : List Partial} {t : Table} {e : Expansion} {before items : List TableItem}

/-- A marker puts what it can inject over the columns so far. -/
theorem columns_step_marker {name : String} {line : Nat} (htable : e.table = t)
    (h : DistinctBeside (t.columns.map Column.name) e.columns) :
    (e.step partials (.marker name line)).columns =
      overlay (t.provided partials [.marker name line]) e.columns := by
  rw [step, Table.provided_singleton, TableItem.injectedColumns]
  cases hp : findPartial? partials name with
  | none => simp
  | some p =>
    dsimp only [inject, Option.map_some, Option.getD_some]
    rw [htable]
    exact foldl_injectColumn h

/-- One more item leaves the columns so far in place, redefined, and adds what it contributes. -/
theorem step_spec {item : TableItem} (htable : e.table = t)
    (h : t.Laid partials before e.columns) (hitems : t.items = before ++ item :: items) :
    t.Laid partials (before ++ [item]) (e.step partials item).columns ∧
      (e.step partials item).columns.map (redefinedBy (t.provided partials items)) =
        e.columns.map (redefinedBy (t.provided partials (item :: items))) ++
          t.contribution partials before item := by
  cases item with
  | column c =>
    have hc : c.name ∈ t.columns.map Column.name :=
      Table.name_mem_of_column_mem (by simp [hitems])
    refine ⟨h.column hc, ?_⟩
    rw [step, List.map_append, List.map_singleton, Table.redefinedBy_provided hc]
    rfl
  | marker name line =>
    rw [columns_step_marker htable h.distinct]
    refine ⟨h.marker, ?_⟩
    rw [map_redefinedBy_overlay, Table.provided_cons _ items, Table.contribution_marker]
    congr 1
    -- what the marker finds taken is what the items before it can inject
    have hnames : newNames (e.columns.map Column.name) (t.provided partials [.marker name line]) =
        newNames ((t.provided partials before).map Column.name)
          (t.provided partials [.marker name line]) :=
      newNames_congr fun x hx => h.names x (Table.mem_names_provided.mp hx).2
    rw [hnames]
    refine List.filterMap_congr fun x hx => ?_
    obtain ⟨c, hc, -⟩ := exists_lastNamed? (mem_newNames.mp hx).1
    rw [hitems, Table.provided_append, Table.provided_cons _ items, lastNamed?_append,
      lastNamed?_append, lastNamed?_append, hc]
    cases lastNamed? (t.provided partials items) x <;> rfl

/-- The items of a table, one after the other: the columns so far stay in place, redefined, and each
item adds what it contributes. -/
theorem foldl_step_spec (htable : e.table = t) (h : t.Laid partials before e.columns)
    (hitems : t.items = before ++ items) :
    t.Laid partials t.items (items.foldl (step partials) e).columns ∧
      (items.foldl (step partials) e).columns =
        e.columns.map (redefinedBy (t.provided partials items)) ++
          (items.zipIdx before.length).flatMap fun (item, i) =>
            t.contribution partials (t.items.take i) item := by
  induction items generalizing before e with
  | nil =>
    have hsame : e.columns.map (redefinedBy (t.provided partials [])) = e.columns :=
      List.map_id _
    rw [List.append_nil] at hitems
    rw [hitems, hsame]
    simpa using h
  | cons item items ih =>
    obtain ⟨hlaid, hcolumns⟩ := step_spec htable h hitems
    obtain ⟨hall, hrest⟩ := ih ((table_step partials e item).trans htable) hlaid
      (by rw [hitems, List.append_assoc, List.singleton_append])
    have htake : t.items.take before.length = before := by
      rw [hitems, List.take_left]
    refine ⟨hall, ?_⟩
    rw [List.foldl_cons, hrest, hcolumns, List.zipIdx_cons, List.flatMap_cons, List.append_assoc]
    dsimp only
    rw [htake, List.length_append, List.length_singleton]

end Expansion

/-! ### Overrides -/

namespace Table

variable {partials : List Partial} {t : Table} {cs : List Column}

/-- **The columns of an expanded table keep to the rules of overriding.** -/
structure Overrides (partials : List Partial) (t : Table) (cs : List Column) : Prop where
  /-- The columns that the table declares stand among them as they are, as often and in the same
  order; no column of their names is injected. -/
  declared : cs.filter (·.name ∈ t.columns.map Column.name) = t.columns
  /-- A name that the table does not declare is there if a partial that it injects declares it. -/
  injected : ∀ x ∉ t.columns.map Column.name, x ∈ cs.map Column.name ↔
    ∃ name line p, TableItem.marker name line ∈ t.items ∧ findPartial? partials name = some p ∧
      x ∈ p.columns.map Column.name
  /-- Such a name is there once. -/
  once : ∀ x ∉ t.columns.map Column.name, (cs.map Column.name).count x ≤ 1
  /-- It stands for the last column that the markers, in order, provide under it. -/
  defined : ∀ c ∈ cs, c.name ∉ t.columns.map Column.name →
    lastNamed? (t.items.flatMap (TableItem.injectedColumns partials)) c.name = some c
  /-- Every item has its own piece of the columns, in the order of the items. -/
  placed : cs = t.items.zipIdx.flatMap fun (item, i) =>
    t.contribution partials (t.items.take i) item

theorem mem_names_injectedColumns {x : String} :
    x ∈ (t.items.flatMap (TableItem.injectedColumns partials)).map Column.name ↔
      ∃ name line p, TableItem.marker name line ∈ t.items ∧ findPartial? partials name = some p ∧
        x ∈ p.columns.map Column.name := by
  have hbrought : ∀ c, c ∈ t.items.flatMap (TableItem.injectedColumns partials) ↔
      ∃ name line p, TableItem.marker name line ∈ t.items ∧
        findPartial? partials name = some p ∧ c ∈ p.columns :=
    fun _ => mem_flatMap_items_iff (fun _ => rfl) fun _ _ => rfl
  constructor
  · intro hx
    obtain ⟨c, hc, rfl⟩ := List.mem_map.mp hx
    obtain ⟨name, line, p, hitem, hp, hc⟩ := (hbrought c).mp hc
    exact ⟨name, line, p, hitem, hp, List.mem_map_of_mem hc⟩
  · rintro ⟨name, line, p, hitem, hp, hx⟩
    obtain ⟨c, hc, rfl⟩ := List.mem_map.mp hx
    exact List.mem_map_of_mem ((hbrought c).mpr ⟨name, line, p, hitem, hp, hc⟩)

/-- A marker contributes nothing under a name that the table declares. -/
theorem filter_contribution (before : List TableItem) {item : TableItem} (hitem : item ∈ t.items) :
    (t.contribution partials before item).filter (·.name ∈ t.columns.map Column.name) =
      item.column?.toList := by
  cases item with
  | column c =>
    rw [contribution, List.filter_cons_of_pos (by simpa using name_mem_of_column_mem hitem)]
    rfl
  | marker name line =>
    rw [contribution_marker, TableItem.column?, Option.toList_none, List.filter_eq_nil_iff]
    intro c hc
    obtain ⟨x, hx, hlast⟩ := List.mem_filterMap.mp hc
    have hprovided := mem_names_provided.mp (mem_newNames.mp hx).1
    rw [name_of_lastNamed? hlast]
    simpa using hprovided.2

/-- A column that a marker contributes is the last one that is provided under its name. -/
theorem lastNamed?_of_mem_contribution {before : List TableItem} {item : TableItem} {c : Column}
    (hitem : item ∈ t.items) (hc : c ∈ t.contribution partials before item)
    (hname : c.name ∉ t.columns.map Column.name) :
    lastNamed? (t.items.flatMap (TableItem.injectedColumns partials)) c.name = some c := by
  cases item with
  | column d =>
    obtain rfl := List.mem_singleton.mp hc
    exact absurd (name_mem_of_column_mem hitem) hname
  | marker name line =>
    obtain ⟨x, -, hlast⟩ := List.mem_filterMap.mp hc
    rwa [name_of_lastNamed? hlast]

/-- **Every expansion keeps to the rules of overriding.** -/
theorem overrides_expansion (partials : List Partial) (t : Table) :
    t.Overrides partials (t.expansion partials).columns := by
  have hstart : t.Laid partials [] [] := ⟨fun _ _ => Iff.rfl, List.nodup_nil⟩
  obtain ⟨hlaid, hcolumns⟩ := Expansion.foldl_step_spec (e := ⟨t, [], t.indexes, []⟩) rfl hstart rfl
  have hplaced : (t.expansion partials).columns = t.items.zipIdx.flatMap fun (item, i) =>
      t.contribution partials (t.items.take i) item := hcolumns
  refine ⟨?_, fun x hx => ?_, fun x hx => ?_, fun c hc hname => ?_, hplaced⟩
  · rw [hplaced, List.filter_flatMap]
    conv_rhs => rw [columns, List.filterMap_eq_flatMap_toList, ← List.zipIdx_map_fst 0 t.items,
      List.flatMap_map]
    exact List.flatMap_congr fun x hx => filter_contribution _ (List.fst_mem_of_mem_zipIdx hx)
  · rw [← mem_names_injectedColumns]
    exact (hlaid.names x hx).trans (mem_names_provided.trans (and_iff_left hx))
  · rw [← List.count_filter (p := (· ∉ t.columns.map Column.name)) (by simpa using hx)]
    exact List.nodup_iff_count_le_one.mp hlaid.distinct x
  · rw [hplaced] at hc
    obtain ⟨x, hx, hc⟩ := List.mem_flatMap.mp hc
    exact lastNamed?_of_mem_contribution (List.fst_mem_of_mem_zipIdx hx) hc hname

/-- Where the table declares different names, all names are different. -/
theorem Overrides.nodup_names (h : t.Overrides partials cs)
    (hdistinct : (t.columns.map Column.name).Nodup) : (cs.map Column.name).Nodup := by
  rw [List.nodup_iff_count_le_one]
  intro x
  by_cases hx : x ∈ t.columns.map Column.name
  · have hdeclared : (cs.map Column.name).filter (· ∈ t.columns.map Column.name) =
        t.columns.map Column.name := by
      rw [List.filter_map]
      exact congrArg (List.map Column.name) h.declared
    rw [← List.count_filter (p := (· ∈ t.columns.map Column.name)) (by simpa using hx), hdeclared]
    exact List.nodup_iff_count_le_one.mp hdistinct x
  · exact h.once x hx

end Table

/-- **Which column overrides which.** Every table can be expanded with any partials, unless strict
mode forbids an unknown marker, and the columns of an expanded table keep to the rules of
overriding. So a table that declares different names is drawn with different names. -/
theorem columns_override (partials : List Partial) (t : Table) :
    (∃ e, expand false partials t = .ok e) ∧
    (∀ strict e, expand strict partials t = .ok e → t.Overrides partials e.columns) ∧
    ((t.columns.map Column.name).Nodup → ∀ options d c, compile options d = .ok c →
      d.partials = partials → t ∈ d.tables →
      ∀ n ∈ c.diagram.nodes, n.id = t.id → (n.columns.map NodeColumn.name).Nodup) := by
  have hoverrides := t.overrides_expansion partials
  refine ⟨⟨_, expand_lenient partials t⟩, fun strict e he => ?_, ?_⟩
  · obtain ⟨rfl, -⟩ := expand_eq_ok_iff.mp he
    exact hoverrides
  · rintro hdistinct options d c hcompile rfl ht n hn hid
    have hlisted : n.listed ∈ d.tables.map fun u => (u.id, d.columnNames u) :=
      map_listed_of_compile hcompile ▸ List.mem_map_of_mem hn
    obtain ⟨u, hu, hsame⟩ := List.mem_map.mp hlisted
    obtain ⟨huid, hnames⟩ := Prod.mk.inj hsame
    obtain rfl : u = t :=
      List.inj_on_of_nodup_map (nodup_of_compile hcompile).1 hu ht (huid.trans hid)
    rw [← hnames]
    exact hoverrides.nodup_names hdistinct

/-- A partial that declares a name twice and one that the table declares, and a second partial that
shares a name with the first; columns with their lines. -/
example :
    let partials : List Partial :=
      [⟨"p", [⟨"k", none, [], 10⟩, ⟨"x", none, [], 11⟩, ⟨"l", none, [], 12⟩, ⟨"k", none, [], 13⟩],
        [], none⟩, ⟨"q", [⟨"m", none, [], 20⟩, ⟨"l", none, [], 21⟩], [], none⟩]
    let items : List TableItem :=
      [.marker "p" 1, .column ⟨"x", none, [], 2⟩, .marker "unknown" 3, .marker "q" 4]
    ((Table.mk none "a" none items [] none 0).expansion partials).columns.map
      (fun c => (c.name, c.line)) = [("k", 13), ("l", 21), ("x", 2), ("m", 20)] := by
  decide +kernel

end SchemaGraph
