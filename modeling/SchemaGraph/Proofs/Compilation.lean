import Mathlib.Data.List.Nodup
import SchemaGraph.Compile.Compiled
import SchemaGraph.Proofs.Aliases

/-!
# What a compilation that succeeds has done

A document compiles when its aliases, its tables and its links do (`compile_eq_ok_iff`). The aliases
that are left behind are those that the tables declare, in order (`aliases_eq`). This module says
what the others leave behind: the tables stand expanded in the order of declaration, under different
ids; a table that is expanded warns of its unknown markers, in order, and of nothing else; and a
link is drawn only between declared tables.
-/

namespace SchemaGraph

/-- A document compiles when its aliases do not clash, its tables can be expanded and none of its
links is malformed. -/
theorem compile_eq_ok_iff {options : CompileOptions} {d : Document} {c : Compiled} :
    compile options d = .ok c ↔
      ∃ known tables outcomes, aliases d.tables = .ok known ∧
        expandAll options.strict d = .ok tables ∧
        List.Forall₂ (fun l o => Link.outcome (tables.map Expansion.id) l = .ok o)
          (Link.all known d.refs tables) outcomes ∧
        c = ⟨.ofTables options.grid tables outcomes,
          tables.flatMap Expansion.warnings ++ outcomes.filterMap LinkOutcome.warning?⟩ := by
  simp only [compile, bind_eq_ok_iff, pure_eq_ok_iff, mapM_eq_ok_iff]
  constructor
  · rintro ⟨known, hk, tables, ht, outcomes, ho, rfl⟩
    exact ⟨known, tables, outcomes, hk, ht, ho, rfl⟩
  · rintro ⟨known, tables, outcomes, hk, ht, ho, rfl⟩
    exact ⟨known, hk, tables, ht, outcomes, ho, rfl⟩

/-- What is left to do when the aliases are known and the tables are expanded. -/
theorem compile_of_expandAll {options : CompileOptions} {d : Document} {known : Aliases}
    {tables : List Expansion} (hknown : aliases d.tables = .ok known)
    (htables : expandAll options.strict d = .ok tables) :
    compile options d =
      ((Link.all known d.refs tables).mapM (Link.outcome (tables.map Expansion.id))).map
        fun outcomes => ⟨.ofTables options.grid tables outcomes,
          tables.flatMap Expansion.warnings ++ outcomes.filterMap LinkOutcome.warning?⟩ := by
  rw [compile, hknown, htables]
  rfl

/-! ### Tables -/

/-- What an item of a table gives rise to, if it is a marker that no partial goes by. -/
def TableItem.unknownWarning? (partials : List Partial) (table : String) :
    TableItem → Option CompileWarning
  | .column _ => none
  | .marker name line =>
    if name ∈ partials.map Partial.name then none else some (.unknownPartial table name line)

theorem findPartial?_eq_none_iff {partials : List Partial} {name : String} :
    findPartial? partials name = none ↔ name ∉ partials.map Partial.name := by
  simp only [findPartial?, List.find?_eq_none, List.mem_reverse, beq_iff_eq, List.mem_map,
    not_exists, not_and]

/-- One item leaves the table in place and adds its own warning. -/
theorem addItem_spec {strict : Bool} {partials : List Partial} {e e' : Expansion} {item : TableItem}
    (h : e.addItem strict partials item = .ok e') :
    e'.table = e.table ∧
      e'.warnings = e.warnings ++ (item.unknownWarning? partials e.id).toList := by
  cases item with
  | column c =>
    cases h
    simp [TableItem.unknownWarning?]
  | marker name line =>
    cases hp : findPartial? partials name with
    | some p =>
      simp only [Expansion.addItem, hp] at h
      cases h
      have hmem : name ∈ partials.map Partial.name := by
        by_contra hn
        rw [findPartial?_eq_none_iff.mpr hn] at hp
        cases hp
      simp [Expansion.inject, TableItem.unknownWarning?, hmem]
    | none =>
      simp only [Expansion.addItem, hp] at h
      have hmem := findPartial?_eq_none_iff.mp hp
      cases strict with
      | true => cases h
      | false =>
        cases h
        simp [TableItem.unknownWarning?, hmem]

/-- An expanded table is the table it was expanded from, and warns of its unknown markers. -/
theorem expand_spec {strict : Bool} {partials : List Partial} {t : Table} {e : Expansion}
    (h : expand strict partials t = .ok e) :
    e.table = t ∧ e.warnings = t.items.filterMap (TableItem.unknownWarning? partials t.id) := by
  refine foldlM_invariant (P := fun seen e => e.table = t ∧
    e.warnings = seen.filterMap (TableItem.unknownWarning? partials t.id)) ⟨rfl, rfl⟩ ?_ h
  rintro seen e item e' ⟨ht, hw⟩ hstep
  obtain ⟨ht', hw'⟩ := addItem_spec hstep
  refine ⟨ht'.trans ht, ?_⟩
  rw [hw', hw, List.filterMap_append, Expansion.id, ht]
  cases hi : item.unknownWarning? partials t.id <;> simp [hi]

/-- Tables can be expanded when each one can, and no id is taken or comes twice. -/
theorem expandFrom_eq_ok_iff {strict : Bool} {partials : List Partial} {taken : List String}
    {ts : List Table} {es : List Expansion} :
    expandFrom strict partials taken ts = .ok es ↔
      List.Forall₂ (fun t e => expand strict partials t = .ok e) ts es ∧
        (ts.map Table.id).Nodup ∧ ∀ id ∈ ts.map Table.id, id ∉ taken := by
  induction ts generalizing taken es with
  | nil =>
    simp only [expandFrom, Except.ok.injEq, List.forall₂_nil_left_iff, List.map_nil,
      List.nodup_nil, List.not_mem_nil, false_implies, implies_true, and_true]
    exact eq_comm
  | cons t ts ih =>
    unfold expandFrom
    by_cases hd : t.id ∈ taken
    · rw [if_pos hd]
      constructor
      · intro h
        cases h
      · rintro ⟨-, -, hfree⟩
        exact absurd hd (hfree _ (by simp))
    · rw [if_neg hd]
      simp only [bind_eq_ok_iff, pure_eq_ok_iff, ih, List.forall₂_cons_left_iff,
        List.map_cons, List.nodup_cons, List.forall_mem_cons]
      constructor
      · rintro ⟨e, he, rest, ⟨hrest, hnodup, hfree⟩, rfl⟩
        refine ⟨⟨e, rest, he, hrest, rfl⟩, ⟨fun hm => ?_, hnodup⟩, hd, fun id hid => ?_⟩
        · exact hfree _ hm List.mem_cons_self
        · exact fun hm => hfree id hid (List.mem_cons_of_mem _ hm)
      · rintro ⟨⟨e, rest, he, hrest, rfl⟩, ⟨hnew, hnodup⟩, -, hfree⟩
        refine ⟨e, he, rest, ⟨hrest, hnodup, fun id hid hm => ?_⟩, rfl⟩
        rcases List.mem_cons.mp hm with rfl | hm
        · exact hnew hid
        · exact hfree id hid hm

/-- The expanded tables of a document are its tables. -/
theorem expandAll_tables {strict : Bool} {d : Document} {tables : List Expansion}
    (h : expandAll strict d = .ok tables) : tables.map Expansion.table = d.tables := by
  have hall := (expandFrom_eq_ok_iff.mp h).1
  clear h
  generalize d.tables = ts at hall
  induction hall with
  | nil => rfl
  | cons he _ ih => rw [List.map_cons, ih, (expand_spec he).1]

/-- The expanded tables of a document go by the ids of its tables. -/
theorem expandAll_ids {strict : Bool} {d : Document} {tables : List Expansion}
    (h : expandAll strict d = .ok tables) : tables.map Expansion.id = d.tables.map Table.id := by
  rw [← expandAll_tables h, List.map_map]
  rfl

/-- The expanded tables of a document have different ids. -/
theorem expandAll_ids_nodup {strict : Bool} {d : Document} {tables : List Expansion}
    (h : expandAll strict d = .ok tables) : (tables.map Expansion.id).Nodup := by
  rw [expandAll_ids h]
  exact (expandFrom_eq_ok_iff.mp h).2.1

/-! ### Links -/

namespace Link

theorem ends?_eq_some_iff {l : Link} {left right : LinkEnd} : l.ends? = some (left, right) ↔
    l.left = some left ∧ l.right = some right ∧ left.fields ≠ [] ∧ right.fields ≠ [] := by
  obtain ⟨line, l₁, relation, l₂⟩ := l
  cases l₁ with
  | none => simp [ends?]
  | some left' =>
    cases l₂ with
    | none => simp [ends?]
    | some right' =>
      simp only [ends?, Bool.or_eq_true, List.isEmpty_iff, Option.ite_none_left_eq_some,
        Option.some.injEq, Prod.mk.injEq, not_or, ne_eq]
      constructor
      · rintro ⟨⟨hl, hr⟩, rfl, rfl⟩
        exact ⟨rfl, rfl, hl, hr⟩
      · rintro ⟨rfl, rfl, hl, hr⟩
        exact ⟨⟨hl, hr⟩, rfl, rfl⟩

/-- What can become of a link: it is incomplete, it has an end on a table that is not declared, the
left one first, or it is drawn. -/
theorem outcome_cases {declared : List String} {l : Link} {o : LinkOutcome}
    (h : l.outcome declared = .ok o) :
    (l.ends? = none ∧ o = .dropped (.incompleteRef l.line)) ∨
      ∃ left right, l.ends? = some (left, right) ∧ left.fields.length = right.fields.length ∧
        ((left.table ∉ declared ∧ o = .dropped (.danglingRef l.line left.table)) ∨
          (left.table ∈ declared ∧ right.table ∉ declared ∧
            o = .dropped (.danglingRef l.line right.table)) ∨
          (left.table ∈ declared ∧ right.table ∈ declared ∧ o = .drawn l.relation left right)) := by
  unfold outcome at h
  cases hends : l.ends? with
  | none =>
    rw [hends] at h
    cases h
    exact .inl ⟨rfl, rfl⟩
  | some ends =>
    obtain ⟨left, right⟩ := ends
    simp only [hends] at h
    refine .inr ⟨left, right, rfl, ?_⟩
    split_ifs at h with hlen hl hr
    · cases h
      exact ⟨not_not.mp hlen, .inr (.inr ⟨hl, hr, rfl⟩)⟩
    · cases h
      exact ⟨not_not.mp hlen, .inr (.inl ⟨hl, hr, rfl⟩)⟩
    · cases h
      exact ⟨not_not.mp hlen, .inl ⟨hl, rfl⟩⟩

/-- A link is drawn only between declared tables. -/
theorem declared_of_drawn {declared : List String} {l : Link} {relation : Relation}
    {left right : LinkEnd} (h : l.outcome declared = .ok (.drawn relation left right)) :
    left.table ∈ declared ∧ right.table ∈ declared := by
  rcases outcome_cases h with ⟨-, ho⟩ | ⟨_, _, -, -, ⟨-, ho⟩ | ⟨-, -, ho⟩ | ⟨hl, hr, ho⟩⟩
  · cases ho
  · cases ho
  · cases ho
  · cases ho
    exact ⟨hl, hr⟩

end Link

end SchemaGraph
