import SchemaGraph.Proofs.Compilable
import SchemaGraph.Proofs.SoundDiagrams

/-!
# Which table a name means

Across a document a table goes by one text, its schema and its name with a point between them. A
name in quotes can hold points of its own, and then the text does not tell which of its points is
the one behind the schema. Two written names have one text exactly when they are the same or one can
be read as the other, with the schema ending at another point (`FullName.text_eq_text_iff`); that
takes a point in a schema and another one in a table's name.

So much and no more can go wrong between names and tables (`table_meant_iff`). A table is said to be
declared twice only if two tables have the same written name or confused ones, and an endpoint that
is no alias is drawn at a table exactly if its written name is that of the table or confused with
it. Both can happen (`points_confuse_names`).
-/

namespace SchemaGraph

/-- The name of a table as it is written, with the default schema where none is. -/
structure FullName where
  schema : String
  name : String
  deriving DecidableEq, Repr

def Table.fullName (t : Table) : FullName :=
  ⟨t.schema.getD defaultSchema, t.name⟩

def Endpoint.fullName (e : Endpoint) : FullName :=
  ⟨e.schema.getD defaultSchema, e.table⟩

namespace FullName

/-- The text of a name: what tables go by. -/
def text (n : FullName) : String :=
  n.schema ++ "." ++ n.name

/-- **A name can be read as another**, the schema of which ends at a later point. -/
def ReadAs (n m : FullName) : Prop :=
  ∃ piece, m.schema = n.schema ++ "." ++ piece ∧ n.name = piece ++ "." ++ m.name

/-- **Two different names are confused.** -/
def Confused (n m : FullName) : Prop :=
  n.ReadAs m ∨ m.ReadAs n

theorem toList_text (n : FullName) : n.text.toList = n.schema.toList ++ '.' :: n.name.toList := by
  have point : ".".toList = ['.'] := rfl
  rw [text, String.toList_append, String.toList_append, point, List.append_assoc,
    List.singleton_append]

theorem readAs_iff {n m : FullName} : n.ReadAs m ↔ ∃ zs,
    m.schema.toList = n.schema.toList ++ '.' :: zs ∧
      n.name.toList = zs ++ '.' :: m.name.toList := by
  have point : ".".toList = ['.'] := rfl
  constructor
  · rintro ⟨piece, hschema, hname⟩
    exact ⟨piece.toList, by simp [hschema, point], by simp [hname, point]⟩
  · rintro ⟨zs, hschema, hname⟩
    refine ⟨String.ofList zs, ?_, ?_⟩
    · rw [← String.toList_inj]
      simp [hschema, point]
    · rw [← String.toList_inj]
      simp [hname, point]

/-- **What the text of a name tells**: the name, unless it is confused with another one. -/
theorem text_eq_text_iff {n m : FullName} : n.text = m.text ↔ n = m ∨ n.Confused m := by
  obtain ⟨schema, name⟩ := n
  obtain ⟨schema', name'⟩ := m
  rw [← String.toList_inj, toList_text, toList_text, append_cons_eq_append_cons_iff, Confused,
    readAs_iff, readAs_iff, String.toList_inj, String.toList_inj, mk.injEq]

example : (FullName.mk "a" "b.c").text = (FullName.mk "a.b" "c").text := by decide

/-- It takes points in a schema and in a name to confuse two names. -/
theorem Confused.points {n m : FullName} (h : n.Confused m) :
    ('.' ∈ m.schema.toList ∧ '.' ∈ n.name.toList) ∨
      ('.' ∈ n.schema.toList ∧ '.' ∈ m.name.toList) := by
  rw [Confused, readAs_iff, readAs_iff] at h
  rcases h with ⟨zs, hschema, hname⟩ | ⟨zs, hschema, hname⟩
  · exact .inl ⟨by simp [hschema], by simp [hname]⟩
  · exact .inr ⟨by simp [hschema], by simp [hname]⟩

end FullName

theorem Table.id_eq (t : Table) : t.id = t.fullName.text := rfl

/-! ### Tables that are declared twice -/

/-- A table can only fail to be expanded on account of a marker. -/
theorem expand_ne_duplicateTable {strict : Bool} {partials : List Partial} {t : Table}
    {id : String} : expand strict partials t ≠ .error (.duplicateTable id) := by
  intro h
  obtain ⟨e, item, -, herror⟩ := exists_of_foldlM_eq_error h
  cases item with
  | column c => cases herror
  | marker name line =>
    unfold Expansion.addItem at herror
    dsimp only at herror
    split at herror
    · cases herror
    · split_ifs at herror
      cases herror

/-- An id is reported to be declared twice if it was taken, or two of the tables have it. -/
theorem exists_of_expandFrom_eq_duplicateTable {strict : Bool} {partials : List Partial}
    {taken : List String} {tables : List Table} {id : String}
    (h : expandFrom strict partials taken tables = .error (.duplicateTable id)) :
    (id ∈ taken ∧ ∃ t ∈ tables, t.id = id) ∨
      ∃ t u, [t, u].Sublist tables ∧ t.id = id ∧ u.id = id := by
  induction tables generalizing taken with
  | nil => cases h
  | cons t tables ih =>
    unfold expandFrom at h
    by_cases htaken : t.id ∈ taken
    · rw [if_pos htaken] at h
      cases h
      exact .inl ⟨htaken, t, List.mem_cons_self, rfl⟩
    · rw [if_neg htaken] at h
      simp only [bind_eq_error_iff] at h
      rcases h with h | ⟨_, -, h | ⟨_, -, h⟩⟩
      · exact absurd h expand_ne_duplicateTable
      · rcases ih h with ⟨hmem, u, hu, hid⟩ | ⟨u, v, hsub, hu, hv⟩
        · rcases List.mem_cons.mp hmem with rfl | hmem
          · exact .inr ⟨t, u, (List.singleton_sublist.mpr hu).cons_cons t, rfl, hid⟩
          · exact .inl ⟨hmem, u, List.mem_cons_of_mem t hu, hid⟩
        · exact .inr ⟨u, v, hsub.cons t, hu, hv⟩
      · cases h

/-- A document is refused for a table declared twice only if two of its tables have one id. -/
theorem exists_of_compile_eq_duplicateTable {options : CompileOptions} {d : Document} {id : String}
    (h : compile options d = .error (.duplicateTable id)) :
    ∃ t u, [t, u].Sublist d.tables ∧ t.id = id ∧ u.id = id := by
  simp only [compile, bind_eq_error_iff] at h
  rcases h with h | ⟨known, -, h | ⟨tables, -, h | ⟨_, -, h⟩⟩⟩
  · obtain ⟨known, ⟨t, own⟩, -, herror⟩ := exists_of_foldlM_eq_error h
    unfold addAlias at herror
    dsimp only at herror
    split at herror
    · cases herror
    · split at herror
      · cases herror
      · split at herror <;> cases herror
  · rcases exists_of_expandFrom_eq_duplicateTable h with ⟨hmem, -⟩ | hpair
    · cases hmem
    · exact hpair
  · obtain ⟨l, -, herror⟩ := exists_of_mapM_eq_error h
    unfold Link.outcome at herror
    split at herror
    · cases herror
    · split_ifs at herror
      cases herror
  · cases h

/-! ### Endpoints and the links that they are part of -/

/-- The node that an edge ends at on one side. -/
def Edge.nodeAt (e : Edge) : Side → String
  | .source => e.source
  | .target => e.target

/-- The end of a link on one side. -/
def Link.endAt (l : Link) : Side → Option LinkEnd
  | .source => l.left
  | .target => l.right

/-- Whether an edge belongs to the link at a position, by the number in its id. -/
def Edge.OfLink (e : Edge) (i : Nat) : Prop :=
  ∃ j, e.id = LinkOutcome.edgeId e.source e.target i j

/-- The references that columns declare, injected columns included, in the order of their links. -/
def Document.columnRefs (d : Document) : List (Table × Column × InlineRef) :=
  d.tables.flatMap fun t => (t.expansion d.partials).columns.flatMap fun c =>
    c.inlineRefs.map fun r => (t, c, r)

/-- **The endpoint that is written on one side of the link at a position.** A reference that a
column declares has the column itself on its left. -/
inductive Document.Writes (d : Document) : Nat → Side → Endpoint → Prop
  | left {i : Nat} {r : Ref} {e : Endpoint} (hr : d.refs[i]? = some r) (he : r.left = some e) :
      d.Writes i .source e
  | right {i : Nat} {r : Ref} {e : Endpoint} (hr : d.refs[i]? = some r) (he : r.right = some e) :
      d.Writes i .target e
  | column {i : Nat} {t : Table} {c : Column} {r : InlineRef}
      (hr : d.columnRefs[i]? = some (t, c, r)) :
      d.Writes (d.refs.length + i) .source ⟨t.schema, t.name, [c.name]⟩
  | target {i : Nat} {t : Table} {c : Column} {r : InlineRef}
      (hr : d.columnRefs[i]? = some (t, c, r)) :
      d.Writes (d.refs.length + i) .target r.target

/-- An endpoint without a schema that is an alias of some table. -/
def Document.UsesAlias (d : Document) (e : Endpoint) : Prop :=
  e.schema = none ∧ ∃ t ∈ d.tables, t.shorthand = some e.table

/-- An endpoint that is no alias means the table that goes by the text of its name. -/
theorem Document.tableId_eq {d : Document} {e : Endpoint} (h : ¬ d.UsesAlias e) :
    e.tableId (declaredAliases d.tables) = e.fullName.text := by
  cases hs : e.schema with
  | some schema =>
    simp only [Endpoint.tableId, hs]
    rw [qualify, Endpoint.fullName, FullName.text, hs]
  | none =>
    have hlookup : (declaredAliases d.tables).lookup e.table = none := by
      rw [lookup_declaredAliases_eq_none_iff, List.mem_filterMap]
      exact fun ⟨t, ht, ha⟩ => h ⟨hs, t, ht, ha⟩
    simp only [Endpoint.tableId, hs, hlookup]
    rw [qualify, Endpoint.fullName, FullName.text, hs]

section Links

variable {d : Document} {known : Aliases} {i : Nat}

/-- The links of a document, those of columns with the references they come from. -/
theorem Document.links_eq (known : Aliases) (d : Document) :
    Link.all known d.refs (d.tables.map (Table.expansion d.partials)) =
      d.refs.map (Link.ofRef known) ++ d.columnRefs.map fun (t, c, r) =>
        ⟨c.line, some ⟨t.id, [c.name]⟩, r.relation, some (.ofEndpoint known r.target)⟩ := by
  rw [Link.all, columnRefs, List.flatMap_map, List.map_flatMap]
  simp only [Table.id_expansion, List.map_flatMap, List.map_map]
  rfl

/-- The links of declared references come first. -/
theorem Document.link_of_refs {r : Ref} (hr : d.refs[i]? = some r) :
    (Link.all known d.refs (d.tables.map (Table.expansion d.partials)))[i]? =
      some (Link.ofRef known r) := by
  have hi : i < (d.refs.map (Link.ofRef known)).length := by
    simp [(List.getElem?_eq_some_iff.mp hr).1]
  rw [links_eq, List.getElem?_append_left hi, List.getElem?_map, hr, Option.map_some]

/-- The links of columns stand behind them. -/
theorem Document.link_of_columnRefs {t : Table} {c : Column} {r : InlineRef}
    (hr : d.columnRefs[i]? = some (t, c, r)) :
    (Link.all known d.refs (d.tables.map (Table.expansion d.partials)))[d.refs.length + i]? =
      some ⟨c.line, some ⟨t.id, [c.name]⟩, r.relation, some (.ofEndpoint known r.target)⟩ := by
  rw [links_eq, List.getElem?_append_right (by simp), List.length_map, Nat.add_sub_cancel_left,
    List.getElem?_map, hr, Option.map_some]

/-- A link ends at the tables that its endpoints mean. -/
theorem Document.table_endAt {side : Side} {e : Endpoint} {l : Link} {ending : LinkEnd}
    (hwrites : d.Writes i side e) (halias : ¬ d.UsesAlias e)
    (hl : (Link.all (declaredAliases d.tables) d.refs
      (d.tables.map (Table.expansion d.partials)))[i]? = some l)
    (hending : l.endAt side = some ending) : ending.table = e.fullName.text := by
  cases hwrites with
  | left hr he =>
    rw [link_of_refs hr] at hl
    cases hl
    simp only [Link.endAt, Link.ofRef, he, Option.map_some, Option.some.injEq] at hending
    rw [← hending]
    exact tableId_eq halias
  | right hr he =>
    rw [link_of_refs hr] at hl
    cases hl
    simp only [Link.endAt, Link.ofRef, he, Option.map_some, Option.some.injEq] at hending
    rw [← hending]
    exact tableId_eq halias
  | column hr =>
    rw [link_of_columnRefs hr] at hl
    cases hl
    cases hending
    rfl
  | target hr =>
    rw [link_of_columnRefs hr] at hl
    cases hl
    cases hending
    exact tableId_eq halias

end Links

/-- An edge of a link runs between the tables at the ends of the link. -/
theorem exists_endAt_of_ofLink {declared : List String} {links : List Link}
    {outcomes : List LinkOutcome} {edge : Edge} {i : Nat}
    (houtcomes : List.Forall₂ (fun l o => Link.outcome declared l = .ok o) links outcomes)
    (hedge : edge ∈ outcomes.zipIdx.flatMap fun (o, i) => o.edges i) (hlink : edge.OfLink i)
    (side : Side) :
    ∃ l ending, links[i]? = some l ∧ l.endAt side = some ending ∧
      edge.nodeAt side = ending.table := by
  obtain ⟨⟨o, i'⟩, ho, hedge⟩ := List.mem_flatMap.mp hedge
  obtain ⟨relation, left, right, j', _, _, rfl, -, -, rfl⟩ := LinkOutcome.mem_edges_iff.mp hedge
  -- The id tells the position of the link, although it does not tell the tables.
  obtain ⟨j, hid⟩ := hlink
  obtain ⟨rfl, -⟩ := LinkOutcome.edgeId_inj hid
  have ho := List.mk_mem_zipIdx_iff_getElem?.mp ho
  obtain ⟨l, hl, houtcome⟩ : ∃ l, links[i']? = some l ∧
      Link.outcome declared l = .ok (.drawn relation left right) := by
    obtain ⟨hi, ho⟩ := List.getElem?_eq_some_iff.mp ho
    have hi' : i' < links.length := houtcomes.length_eq ▸ hi
    refine ⟨links[i'], List.getElem?_eq_getElem hi', ?_⟩
    rw [← ho]
    exact houtcomes.get hi' hi
  rcases Link.outcome_cases houtcome with
    ⟨-, ho⟩ | ⟨_, _, hends, -, ⟨-, ho⟩ | ⟨-, -, ho⟩ | ⟨-, -, ho⟩⟩
  · cases ho
  · cases ho
  · cases ho
  · cases ho
    obtain ⟨hleft, hright, -, -⟩ := Link.ends?_eq_some_iff.mp hends
    cases side with
    | source => exact ⟨l, left, hl, hleft, rfl⟩
    | target => exact ⟨l, right, hl, hright, rfl⟩

/-- **Which table a name means.** A table is said to be declared twice only if two tables have the
same written name, or confused ones. An endpoint that is no alias is drawn at a table exactly if its
written name is that of the table, or confused with it. -/
theorem table_meant_iff (options : CompileOptions) (d : Document) :
    (∀ id, compile options d = .error (.duplicateTable id) →
      ∃ t u, [t, u].Sublist d.tables ∧ t.id = id ∧ u.id = id ∧
        (t.fullName = u.fullName ∨ t.fullName.Confused u.fullName)) ∧
    (∀ c, compile options d = .ok c → ∀ i side e, d.Writes i side e → ¬ d.UsesAlias e →
      ∀ edge ∈ c.diagram.edges, edge.OfLink i → ∀ t ∈ d.tables,
        edge.nodeAt side = t.id ↔ (e.fullName = t.fullName ∨ e.fullName.Confused t.fullName)) := by
  constructor
  · intro id h
    obtain ⟨t, u, hsub, ht, hu⟩ := exists_of_compile_eq_duplicateTable h
    have htext : t.fullName.text = u.fullName.text := by
      rw [← Table.id_eq, ← Table.id_eq, ht, hu]
    exact ⟨t, u, hsub, ht, hu, FullName.text_eq_text_iff.mp htext⟩
  · intro c h i side e hwrites halias edge hedge hlink t _
    simp only [compile_eq_ok_iff, aliases_eq_ok_iff, expandAll_eq_ok_iff] at h
    obtain ⟨_, _, outcomes, ⟨rfl, -⟩, ⟨rfl, -⟩, houtcomes, rfl⟩ := h
    obtain ⟨l, ending, hl, hending, hnode⟩ := exists_endAt_of_ofLink houtcomes hedge hlink side
    rw [hnode, Document.table_endAt hwrites halias hl hending, Table.id_eq]
    exact FullName.text_eq_text_iff

/-! ### Names with points of their own -/

/-- Two tables that go by one text. -/
def homonyms : Document where
  project := none
  tables :=
    [⟨some "a", "b.c", none, [.column ⟨"x", some "i", [], 1⟩], [], none, 1⟩,
      ⟨some "a.b", "c", none, [.column ⟨"x", some "i", [], 2⟩], [], none, 2⟩]
  partials := []
  refs := []
  enums := []

def homonymsText : String :=
  "Table a.\"b.c\" {x i}\nTable \"a.b\".c {x i}"

/-- A reference to a table that is not declared, but goes by the same text as one that is. -/
def strayReference : Document where
  project := none
  tables :=
    [⟨some "a", "b.c", none, [.column ⟨"x", some "i", [], 1⟩], [], none, 1⟩,
      ⟨none, "t", none, [.column ⟨"y", some "i", [], 2⟩], [], none, 2⟩]
  partials := []
  refs :=
    [⟨none, some ⟨none, "t", ["y"]⟩, .manyToOne, some ⟨some "a.b", "c", ["x"]⟩, none, none, 3⟩]
  enums := []

def strayReferenceText : String :=
  "Table a.\"b.c\" {x i}\nTable t {y i}\nRef: t.y > \"a.b\".c.x"

/-- The edge that is drawn for the reference. -/
def strayEdge : Edge :=
  .between "e-public.t-a.b.c-0-0" "public.t" "y" "a.b.c" "x"

theorem compile_homonyms : compile {} homonyms = .error (.duplicateTable "a.b.c") := by
  decide +kernel

theorem exists_compile_strayReference :
    ∃ c, compile {} strayReference = .ok c ∧ strayEdge ∈ c.diagram.edges := by
  have heval : (compile {} strayReference).toOption.map (·.diagram.edges) = some [strayEdge] := by
    decide +kernel
  obtain ⟨c, hc, hedges⟩ := exists_ok_of_map_toOption heval
  exact ⟨c, hc, by simp [hedges]⟩

theorem ofLink_strayEdge : strayEdge.OfLink 0 :=
  ⟨0, by decide +kernel⟩

theorem table_meant_iff_confused :
    compile {} homonyms = .error (.duplicateTable "a.b.c") ∧
    (∃ t u, [t, u].Sublist homonyms.tables ∧ t.fullName.Confused u.fullName) ∧
    ∃ c, compile {} strayReference = .ok c ∧ strayEdge ∈ c.diagram.edges ∧
      strayReference.Writes 0 .target ⟨some "a.b", "c", ["x"]⟩ ∧
      ¬ strayReference.UsesAlias ⟨some "a.b", "c", ["x"]⟩ ∧
      FullName.Confused ⟨"a.b", "c"⟩ ⟨"a", "b.c"⟩ := by
  obtain ⟨t, u, hsub, -, -, hname⟩ := (table_meant_iff {} homonyms).1 _ compile_homonyms
  have hdistinct : (homonyms.tables.map Table.fullName).Nodup := by decide
  have hne : t.fullName ≠ u.fullName := by
    have hpair := hdistinct.sublist (hsub.map Table.fullName)
    simpa using hpair
  obtain ⟨c, hc, hedge⟩ := exists_compile_strayReference
  have hwrites : strayReference.Writes 0 .target ⟨some "a.b", "c", ["x"]⟩ := .right rfl rfl
  have halias : ¬ strayReference.UsesAlias ⟨some "a.b", "c", ["x"]⟩ := nofun
  have hmeant := (table_meant_iff {} strayReference).2 c hc 0 .target _ hwrites halias strayEdge
    hedge ofLink_strayEdge _ List.mem_cons_self
  have hconfused := (hmeant.mp (by decide)).resolve_left (by decide)
  exact ⟨compile_homonyms, ⟨t, u, hsub, hname.resolve_left hne⟩, c, hc, hedge, hwrites, halias,
    hconfused⟩

/-- **Names can be confused.** Two tables with different names are said to be one declared twice,
and a reference to a table that is not declared is drawn at one that is. -/
theorem points_confuse_names :
    (∃ d, Document.parse .partials homonymsText = .ok d ∧
      compile {} d = .error (.duplicateTable "a.b.c") ∧ (d.tables.map Table.fullName).Nodup) ∧
    ∃ d c i side e edge t, Document.parse .partials strayReferenceText = .ok d ∧
      compile {} d = .ok c ∧ d.Writes i side e ∧ ¬ d.UsesAlias e ∧ edge ∈ c.diagram.edges ∧
      edge.OfLink i ∧ t ∈ d.tables ∧ edge.nodeAt side = t.id ∧ e.fullName ≠ t.fullName := by
  have hhomonyms : Document.parse .partials homonymsText = .ok homonyms := by decide +kernel
  have hstray : Document.parse .partials strayReferenceText = .ok strayReference := by
    decide +kernel
  obtain ⟨c, hc, hedge⟩ := exists_compile_strayReference
  have hmem : ⟨some "a", "b.c", none, [.column ⟨"x", some "i", [], 1⟩], [], none, 1⟩ ∈
      strayReference.tables := List.mem_cons_self
  exact ⟨⟨homonyms, hhomonyms, compile_homonyms, by decide⟩,
    strayReference, c, 0, .target, _, strayEdge, _, hstray, hc, .right rfl rfl, nofun, hedge,
    ofLink_strayEdge, hmem, by decide, by decide⟩

end SchemaGraph
