import SchemaGraph.Proofs.Expanding

/-!
# When a document compiles

A document can be at fault in four ways: two tables share an alias, an alias is the name of another
table, two tables go by the same id, or a reference pairs unequally many fields. Each fault can be
seen in the document itself, without compiling it (`Document.Compilable`). A document without faults
compiles, whatever is unknown or missing in it, and a document with one does not
(`compile_succeeds_iff`). The aliases, the tables and the links are looked at in this order, so
which fault is reported depends on what comes first; that there is one does not. Strict mode adds
one fault, a marker that no partial goes by, and changes nothing else.
-/

namespace SchemaGraph

/-! ### Links -/

/-- The two ends of a reference name equally many fields, if both are there and name any. -/
def EndsMatch (left right : Option Endpoint) : Prop :=
  ∀ l ∈ left, ∀ r ∈ right, l.fields ≠ [] → r.fields ≠ [] → l.fields.length = r.fields.length

namespace Link

/-- A link is refused when both of its ends name fields, but not equally many. -/
theorem exists_outcome_iff {declared : List String} {l : Link} :
    (∃ o, l.outcome declared = .ok o) ↔
      ∀ left right, l.ends? = some (left, right) → left.fields.length = right.fields.length := by
  constructor
  · rintro ⟨o, ho⟩ left right hends
    rcases outcome_cases ho with ⟨hnone, -⟩ | ⟨left', right', hends', hlen, -⟩
    · rw [hnone] at hends
      cases hends
    · rw [hends'] at hends
      cases hends
      exact hlen
  · intro h
    unfold outcome
    cases hends : l.ends? with
    | none => exact ⟨_, rfl⟩
    | some ends =>
      obtain ⟨left, right⟩ := ends
      have hlen := h left right hends
      dsimp only
      rw [if_neg (not_not.mpr hlen)]
      split_ifs <;> exact ⟨_, rfl⟩

theorem exists_outcome_ofRef_iff {declared : List String} {known : Aliases} {r : Ref} :
    (∃ o, (ofRef known r).outcome declared = .ok o) ↔ EndsMatch r.left r.right := by
  simp only [exists_outcome_iff, ends?_eq_some_iff, ofRef, Option.map_eq_some_iff, EndsMatch,
    Option.mem_def]
  constructor
  · intro h l hl r' hr hlf hrf
    exact h _ _ ⟨⟨l, hl, rfl⟩, ⟨r', hr, rfl⟩, hlf, hrf⟩
  · rintro h _ _ ⟨⟨l, hl, rfl⟩, ⟨r', hr, rfl⟩, hlf, hrf⟩
    exact h l hl r' hr hlf hrf

/-- A column pairs one field, its own, with those of the target. -/
theorem exists_outcome_ofColumn_iff {declared : List String} {known : Aliases} {table : String}
    {c : Column} :
    (∀ l ∈ ofColumn known table c, ∃ o, l.outcome declared = .ok o) ↔
      ∀ r ∈ c.inlineRefs, r.target.fields ≠ [] → r.target.fields.length = 1 := by
  simp only [ofColumn, List.forall_mem_map, exists_outcome_iff, ends?_eq_some_iff,
    Option.some.injEq]
  refine forall₂_congr fun r _ => ?_
  constructor
  · intro h hfields
    exact (h _ _ ⟨rfl, rfl, List.cons_ne_nil _ _, hfields⟩).symm
  · rintro h _ _ ⟨rfl, rfl, -, hfields⟩
    exact (h hfields).symm

end Link

/-! ### Documents -/

/-- **A document has no fault** that keeps it from compiling. -/
structure Document.Compilable (d : Document) : Prop where
  /-- No two tables share an alias. -/
  aliases_distinct : (d.tables.filterMap Table.shorthand).Nodup
  /-- No alias is the name of a different table, with or without its schema. -/
  aliases_free : d.tables.Pairwise fun t u => ¬ t.AliasNames u ∧ ¬ u.AliasNames t
  ids_distinct : (d.tables.map Table.id).Nodup
  /-- Declared references pair equally many fields, on declared tables or not. -/
  refs_match : ∀ r ∈ d.refs, EndsMatch r.left r.right
  /-- So do those that columns declare, injected columns included. -/
  settings_match : ∀ t ∈ d.tables, ∀ c ∈ (t.expansion d.partials).columns, ∀ r ∈ c.inlineRefs,
    r.target.fields ≠ [] → r.target.fields.length = 1

/-- The links of a document have outcomes when all references pair equally many fields. -/
theorem exists_outcomes_iff {declared : List String} {known : Aliases} {d : Document} :
    (∃ outcomes, List.Forall₂ (fun l o => Link.outcome declared l = .ok o)
        (Link.all known d.refs (d.tables.map (Table.expansion d.partials))) outcomes) ↔
      (∀ r ∈ d.refs, EndsMatch r.left r.right) ∧
        ∀ t ∈ d.tables, ∀ c ∈ (t.expansion d.partials).columns, ∀ r ∈ c.inlineRefs,
          r.target.fields ≠ [] → r.target.fields.length = 1 := by
  simp only [exists_forall₂_iff, Link.all, List.forall_mem_append, List.forall_mem_map,
    Link.exists_outcome_ofRef_iff, List.forall_mem_flatMap, Link.exists_outcome_ofColumn_iff]

/-- Without strict mode a document compiles exactly when it has no fault. -/
theorem exists_compile_lenient_iff {grid : Grid} {d : Document} :
    (∃ c, compile ⟨false, grid⟩ d = .ok c) ↔ d.Compilable := by
  simp only [compile_eq_ok_iff, aliases_eq_ok_iff, expandAll_eq_ok_iff]
  constructor
  · rintro ⟨_, _, _, outcomes, ⟨rfl, hdistinct, hfree⟩, ⟨rfl, hids, -⟩, houtcomes, -⟩
    obtain ⟨hrefs, hsettings⟩ := exists_outcomes_iff.mp ⟨outcomes, houtcomes⟩
    exact ⟨hdistinct, hfree, hids, hrefs, hsettings⟩
  · rintro ⟨hdistinct, hfree, hids, hrefs, hsettings⟩
    obtain ⟨outcomes, houtcomes⟩ := exists_outcomes_iff.mpr ⟨hrefs, hsettings⟩
    exact ⟨_, _, _, outcomes, ⟨rfl, hdistinct, hfree⟩, ⟨rfl, hids, nofun⟩, houtcomes, rfl⟩

/-! ### Strict mode -/

/-- Whether a warning is about a marker that no partial goes by. -/
def CompileWarning.isUnknownPartial : CompileWarning → Bool
  | .unknownPartial .. => true
  | _ => false

/-- The warnings about tables are about unknown markers. -/
theorem isUnknownPartial_of_tables {partials : List Partial} {ts : List Table} {w : CompileWarning}
    (h : w ∈ (ts.map (Table.expansion partials)).flatMap Expansion.warnings) :
    w.isUnknownPartial = true := by
  obtain ⟨e, he, hw⟩ := List.mem_flatMap.mp h
  obtain ⟨t, -, rfl⟩ := List.mem_map.mp he
  obtain ⟨_, _, -, -, rfl⟩ := exists_of_mem_warnings hw
  rfl

/-- The warnings about links are not. -/
theorem isUnknownPartial_of_outcomes {declared : List String} {links : List Link}
    {outcomes : List LinkOutcome} {w : CompileWarning}
    (houtcomes : List.Forall₂ (fun l o => Link.outcome declared l = .ok o) links outcomes)
    (h : w ∈ outcomes.filterMap LinkOutcome.warning?) : w.isUnknownPartial = false := by
  obtain ⟨o, ho, hw⟩ := List.mem_filterMap.mp h
  obtain ⟨l, -, hl⟩ := exists_mem_of_forall₂ houtcomes ho
  rcases Link.outcome_cases hl with
    ⟨-, rfl⟩ | ⟨left, right, -, -, ⟨-, rfl⟩ | ⟨-, -, rfl⟩ | ⟨-, -, rfl⟩⟩
  · cases hw
    rfl
  · cases hw
    rfl
  · cases hw
    rfl
  · cases hw

/-- Strict mode accepts what compiles without a warning about unknown markers. -/
theorem compile_strict_iff {grid : Grid} {d : Document} {c : Compiled} :
    compile ⟨true, grid⟩ d = .ok c ↔
      compile ⟨false, grid⟩ d = .ok c ∧ ∀ w ∈ c.warnings, w.isUnknownPartial = false := by
  simp only [compile_eq_ok_iff, expandAll_eq_ok_iff]
  constructor
  · rintro ⟨known, _, outcomes, hknown, ⟨rfl, hids, hnone⟩, houtcomes, rfl⟩
    refine ⟨⟨known, _, outcomes, hknown, ⟨rfl, hids, nofun⟩, houtcomes, rfl⟩, ?_⟩
    intro w hw
    rw [List.flatMap_eq_nil_iff.mpr (hnone trivial), List.nil_append] at hw
    exact isUnknownPartial_of_outcomes houtcomes hw
  · rintro ⟨⟨known, _, outcomes, hknown, ⟨rfl, hids, -⟩, houtcomes, rfl⟩, hwarnings⟩
    have hnone : (d.tables.map (Table.expansion d.partials)).flatMap Expansion.warnings = [] := by
      rw [List.eq_nil_iff_forall_not_mem]
      intro w hw
      have hknown := hwarnings w (List.mem_append_left _ hw)
      rw [isUnknownPartial_of_tables hw] at hknown
      cases hknown
    exact ⟨known, _, outcomes, hknown, ⟨rfl, hids, fun _ => List.flatMap_eq_nil_iff.mp hnone⟩,
      houtcomes, rfl⟩

/-- **When a document compiles, and what strict mode adds.** Without strict mode a document compiles
exactly when it has no fault. In strict mode it compiles to the same, provided there is no warning
about an unknown marker; what fails without strict mode fails with it. -/
theorem compile_succeeds_iff (grid : Grid) (d : Document) :
    ((∃ c, compile ⟨false, grid⟩ d = .ok c) ↔ d.Compilable) ∧
    (∀ c, compile ⟨true, grid⟩ d = .ok c ↔
      compile ⟨false, grid⟩ d = .ok c ∧ ∀ w ∈ c.warnings, w.isUnknownPartial = false) ∧
    ((∃ e, compile ⟨false, grid⟩ d = .error e) → ∃ e, compile ⟨true, grid⟩ d = .error e) := by
  refine ⟨exists_compile_lenient_iff, fun c => compile_strict_iff, ?_⟩
  rintro ⟨e, he⟩
  cases hstrict : compile ⟨true, grid⟩ d with
  | error e' => exact ⟨e', rfl⟩
  | ok c =>
    rw [(compile_strict_iff.mp hstrict).1] at he
    cases he

/-- Books with the columns of two partials and a marker that no partial goes by, their authors, and
a reference to a table that is not declared. -/
def libraryDocument : Document where
  project := none
  tables :=
    [⟨none, "books", some "b", [.marker "keys" 2, .marker "origins" 3, .marker "loans" 4],
        [], none, 1⟩,
      ⟨none, "authors", none, [.column ⟨"id", none, [.primaryKey], 6⟩], [], none, 5⟩]
  partials :=
    [⟨"keys", [⟨"id", none, [], 8⟩], [⟨["id"], true, false, none⟩], none⟩,
      ⟨"origins", [⟨"author", none, [.ref ⟨.manyToOne, ⟨none, "authors", ["id"]⟩⟩], 10⟩], [], none⟩]
  refs :=
    [⟨none, some ⟨none, "b", ["author"]⟩, .manyToOne, some ⟨none, "people", ["id"]⟩, none, none,
        11⟩,
      ⟨none, some ⟨none, "b", ["id"]⟩, .oneToOne, some ⟨none, "authors", ["id"]⟩, none, none, 12⟩]
  enums := []

theorem compile_succeeds_iff_library : libraryDocument.Compilable ∧
    ∃ c, compile ⟨false, {}⟩ libraryDocument = .ok c ∧
      c.warnings = [.unknownPartial "public.books" "loans" 4, .danglingRef 11 "public.people"] ∧
      ∀ c', compile ⟨true, {}⟩ libraryDocument ≠ .ok c' := by
  have heval : (compile ⟨false, {}⟩ libraryDocument).toOption.map Compiled.warnings =
      some [.unknownPartial "public.books" "loans" 4, .danglingRef 11 "public.people"] := by
    decide +kernel
  obtain ⟨c, hc, hwarnings⟩ := exists_ok_of_map_toOption heval
  obtain ⟨hlenient, hstrict, -⟩ := compile_succeeds_iff {} libraryDocument
  refine ⟨hlenient.mp ⟨c, hc⟩, c, hc, hwarnings, fun c' hc' => ?_⟩
  obtain ⟨hsame, hnone⟩ := (hstrict c').mp hc'
  rw [hc] at hsame
  cases hsame
  have hunknown := hnone (.unknownPartial "public.books" "loans" 4) (by simp [hwarnings])
  cases hunknown

/-- A column that is injected pairs one field too, whether the table of the others is declared or
not. -/
example : compile ⟨false, {}⟩ {
    project := none
    tables := [⟨none, "books", none, [.marker "origins" 2], [], none, 1⟩]
    partials := [⟨"origins", [⟨"author", none,
      [.ref ⟨.manyToOne, ⟨none, "people", ["first", "last"]⟩⟩], 4⟩], [], none⟩]
    refs := []
    enums := [] } = .error (.compositeArity 4 1 2) := by
  decide

end SchemaGraph
