import SchemaGraph.Proofs.Compilation

/-!
# No relationship is lost or invented

A document declares relationships in two ways, by references and by settings of columns. Together,
in this order, they are the links of the document (`Link.all`). A link is drawn if both of its ends
are there, name fields, and lie on declared tables (`Link.Emits`); otherwise there is a warning that
says why not (`Link.lossWarning?`). This module says so without the compilation's own account of
what becomes of a link: the edges of a diagram are those of the links that are drawn, one for each
field position, and the warnings are one for each link that is not (`compile_accounts_for_links`).
An edge carries the position of its link among all links, those that are not drawn included.
-/

namespace SchemaGraph

namespace Link

/-- **A link is drawn** when both of its ends are there, name fields, and lie on declared tables. -/
def Emits (declared : List String) (l : Link) : Prop :=
  ∃ left right, l.left = some left ∧ l.right = some right ∧ left.fields ≠ [] ∧
    right.fields ≠ [] ∧ left.table ∈ declared ∧ right.table ∈ declared

theorem emits_iff {declared : List String} {l : Link} {left right : LinkEnd}
    (hl : l.left = some left) (hr : l.right = some right) : l.Emits declared ↔
      left.fields ≠ [] ∧ right.fields ≠ [] ∧ left.table ∈ declared ∧ right.table ∈ declared := by
  constructor
  · rintro ⟨left', right', hl', hr', h⟩
    rw [hl] at hl'
    rw [hr] at hr'
    cases hl'
    cases hr'
    exact h
  · exact fun h => ⟨left, right, hl, hr, h⟩

instance (declared : List String) (l : Link) : Decidable (l.Emits declared) :=
  match hl : l.left, hr : l.right with
  | some _, some _ => decidable_of_iff _ (emits_iff hl hr).symm
  | none, _ => .isFalse fun ⟨_, _, h, _⟩ => by rw [hl] at h; cases h
  | some _, none => .isFalse fun ⟨_, _, _, h, _⟩ => by rw [hr] at h; cases h

/-- How many fields the left end names. -/
def fieldCount (l : Link) : Nat :=
  (l.left.map (·.fields.length)).getD 0

/-- The edge between the fields at position `j` of both ends, where the link is at position `i`. -/
def edgeAt (l : Link) (i j : Nat) : Option Edge := do
  let left ← l.left
  let right ← l.right
  let source ← left.fields[j]?
  let target ← right.fields[j]?
  return {
    id := "e-" ++ left.table ++ "-" ++ right.table ++ "-" ++ toString i ++ "-" ++ toString j
    source := left.table
    target := right.table
    sourceHandle := "source-" ++ source
    targetHandle := "target-" ++ target
    label := source ++ " → " ++ target }

/-- What is reported for a link that is not drawn. -/
def lossWarning? (declared : List String) (l : Link) : Option CompileWarning :=
  match l.left, l.right with
  | some left, some right =>
    if left.fields = [] ∨ right.fields = [] then some (.incompleteRef l.line)
    else if left.table ∉ declared then some (.danglingRef l.line left.table)
    else if right.table ∉ declared then some (.danglingRef l.line right.table)
    else none
  | _, _ => some (.incompleteRef l.line)

/-- A link is reported exactly when it is not drawn. -/
theorem lossWarning?_eq_none_iff {declared : List String} {l : Link} :
    l.lossWarning? declared = none ↔ l.Emits declared := by
  unfold lossWarning?
  split
  · next left right hl hr =>
    rw [emits_iff hl hr]
    split_ifs with hfields hleft hright
    · exact iff_of_false (by simp) fun h => hfields.elim h.1 h.2.1
    · rw [not_or] at hfields
      exact iff_of_true rfl ⟨hfields.1, hfields.2, hleft, hright⟩
    · exact iff_of_false (by simp) fun h => hright h.2.2.2
    · exact iff_of_false (by simp) fun h => hleft h.2.2.1
  · next hnone =>
    refine iff_of_false (by simp) ?_
    rintro ⟨left, right, hl, hr, -⟩
    exact hnone left right hl hr

variable {declared : List String} {l : Link} {o : LinkOutcome}

/-- The edges of a link that is drawn: one for each field position. -/
theorem edges_drawn {relation : Relation} {left right : LinkEnd} (hl : l.left = some left)
    (hr : l.right = some right) (hlen : left.fields.length = right.fields.length) (i : Nat) :
    ((LinkOutcome.drawn relation left right).edges i).map some =
      (List.range l.fieldCount).map (l.edgeAt i) := by
  have hcount : l.fieldCount = left.fields.length := by rw [fieldCount, hl]; rfl
  apply List.ext_getElem?
  intro j
  rw [hcount, LinkOutcome.edges, List.getElem?_map, List.getElem?_map, List.getElem?_zipIdx,
    List.getElem?_map]
  by_cases hj : j < left.fields.length
  · obtain ⟨source, hs⟩ : ∃ source, left.fields[j]? = some source :=
      ⟨_, List.getElem?_eq_getElem hj⟩
    obtain ⟨target, ht⟩ : ∃ target, right.fields[j]? = some target :=
      ⟨_, List.getElem?_eq_getElem (hlen ▸ hj)⟩
    have hzip : (left.fields.zip right.fields)[j]? = some (source, target) :=
      List.getElem?_zip_eq_some.mpr ⟨hs, ht⟩
    rw [hzip, List.getElem?_range hj]
    simp only [Option.map_some, edgeAt, hl, hr, hs, ht, Nat.zero_add, Option.bind_eq_bind,
      Option.bind_some, Option.pure_def]
    rfl
  · rw [List.getElem?_eq_none (by simp; omega), List.getElem?_eq_none (by simp; omega)]
    rfl

/-- A link without an end, or without fields at one of them, is reported as incomplete. -/
theorem lossWarning?_of_ends?_eq_none (declared : List String) (h : l.ends? = none) :
    l.lossWarning? declared = some (.incompleteRef l.line) := by
  unfold lossWarning?
  split
  · next left right hl hr =>
    rw [if_pos]
    by_contra hfields
    rw [not_or] at hfields
    rw [ends?_eq_some_iff.mpr ⟨hl, hr, hfields⟩] at h
    cases h
  · rfl

/-- What becomes of a link is what its ends say: it is drawn and not reported, or reported and not
drawn; and where it is drawn both of its ends name equally many fields. -/
theorem outcome_spec (h : l.outcome declared = .ok o) :
    o.warning? = l.lossWarning? declared ∧
      (∀ i, (o.edges i).map some =
        if l.Emits declared then (List.range l.fieldCount).map (l.edgeAt i) else []) ∧
      (l.Emits declared → ∃ left right, l.left = some left ∧ l.right = some right ∧
        left.fields.length = right.fields.length) := by
  rcases outcome_cases h with ⟨hnone, rfl⟩ | ⟨left, right, hends, hlen, hcase⟩
  · have hloss := lossWarning?_of_ends?_eq_none declared hnone
    have hnot : ¬ l.Emits declared := by
      rw [← lossWarning?_eq_none_iff, hloss]
      simp
    exact ⟨hloss.symm, fun i => by rw [if_neg hnot]; rfl, fun he => absurd he hnot⟩
  · obtain ⟨hl, hr, hfl, hfr⟩ := ends?_eq_some_iff.mp hends
    have hfields : ¬ (left.fields = [] ∨ right.fields = []) := not_or.mpr ⟨hfl, hfr⟩
    refine ⟨?_, ?_, fun _ => ⟨left, right, hl, hr, hlen⟩⟩
    · simp only [lossWarning?, hl, hr, if_neg hfields]
      rcases hcase with ⟨hleft, rfl⟩ | ⟨hleft, hright, rfl⟩ | ⟨hleft, hright, rfl⟩
      · rw [if_pos hleft]
        rfl
      · rw [if_neg (not_not.mpr hleft), if_pos hright]
        rfl
      · rw [if_neg (not_not.mpr hleft), if_neg (not_not.mpr hright)]
        rfl
    · intro i
      rw [if_congr (emits_iff hl hr) rfl rfl]
      rcases hcase with ⟨hleft, rfl⟩ | ⟨hleft, hright, rfl⟩ | ⟨hleft, hright, rfl⟩
      · rw [if_neg fun h => hleft h.2.2.1]
        rfl
      · rw [if_neg fun h => hright h.2.2.2]
        rfl
      · rw [if_pos ⟨hfl, hfr, hleft, hright⟩]
        exact edges_drawn hl hr hlen i

end Link

/-- The warnings about unknown markers stand in the order of tables and markers. -/
theorem expandAll_warnings {strict : Bool} {d : Document} {tables : List Expansion}
    (h : expandAll strict d = .ok tables) : tables.flatMap Expansion.warnings =
      d.tables.flatMap fun t => t.items.filterMap (TableItem.unknownWarning? d.partials t.id) := by
  rw [List.flatMap_def, List.flatMap_def]
  exact congrArg List.flatten
    (map_eq_map_of_forall₂ (expandFrom_eq_ok_iff.mp h).1 fun t e he => (expand_spec he).2.symm).symm

/-- **The edges and the warnings of a diagram account for the links of its document**: every link is
drawn in full or reported once, in order, and nothing else is drawn or reported but unknown
markers. -/
structure AccountsFor (d : Document) (links : List Link) (c : Compiled) : Prop where
  /-- The edges are those of each link that is drawn, one for each position of its fields. -/
  edges : c.diagram.edges.map some = links.zipIdx.flatMap fun (l, i) =>
    if l.Emits (d.tables.map Table.id) then (List.range l.fieldCount).map (l.edgeAt i) else []
  /-- The positions of the left fields are those of the right fields. -/
  paired : ∀ l ∈ links, l.Emits (d.tables.map Table.id) → ∃ left right, l.left = some left ∧
    l.right = some right ∧ left.fields.length = right.fields.length
  /-- A link is reported exactly when it is not drawn. -/
  reported : ∀ l ∈ links, l.lossWarning? (d.tables.map Table.id) = none ↔
    l.Emits (d.tables.map Table.id)
  /-- The warnings are one for each unknown marker, and then one for each link that is reported. -/
  warnings : c.warnings =
    (d.tables.flatMap fun t =>
      t.items.filterMap (TableItem.unknownWarning? d.partials t.id)) ++
    links.filterMap (Link.lossWarning? (d.tables.map Table.id))

/-- **No relationship is lost or invented.** The links of a document that compiles are its declared
references and the ones in settings of its expanded columns, and the diagram accounts for them. -/
theorem compile_accounts_for_links {options : CompileOptions} {d : Document} {c : Compiled}
    (h : compile options d = .ok c) :
    ∃ tables, expandAll options.strict d = .ok tables ∧
      AccountsFor d (Link.all (declaredAliases d.tables) d.refs tables) c := by
  obtain ⟨known, tables, outcomes, hknown, htables, houtcomes, rfl⟩ := compile_eq_ok_iff.mp h
  obtain rfl := aliases_eq hknown
  rw [expandAll_ids htables] at houtcomes
  refine ⟨tables, htables, ?_, ?_, fun _ _ => Link.lossWarning?_eq_none_iff, ?_⟩
  · rw [Diagram.ofTables, List.map_flatMap, List.flatMap_def, List.flatMap_def]
    congr 1
    refine (map_eq_map_of_forall₂ (forall₂_zipIdx houtcomes 0) ?_).symm
    rintro ⟨l, i⟩ ⟨o, _⟩ ⟨ho, rfl⟩
    exact ((Link.outcome_spec ho).2.1 i).symm
  · intro l hl
    obtain ⟨o, -, ho⟩ := exists_mem_of_forall₂ houtcomes.flip hl
    exact (Link.outcome_spec ho).2.2
  · dsimp only
    rw [expandAll_warnings htables]
    congr 1
    have hmap := map_eq_map_of_forall₂ houtcomes fun l o ho => (Link.outcome_spec ho).1.symm
    calc outcomes.filterMap LinkOutcome.warning?
        = (outcomes.map LinkOutcome.warning?).filterMap id := by rw [List.filterMap_map]; rfl
      _ = (Link.all _ d.refs tables).filterMap (Link.lossWarning? _) := by
        rw [← hmap, List.filterMap_map]
        rfl

/-- A document with a reference that has no right end, one to a table that is not declared, one that
pairs two fields by an alias, a setting that comes in through a partial, and an unknown marker. -/
def mixedDocument : Document where
  project := none
  tables :=
    [⟨none, "a", some "A", [.marker "p" 2, .marker "q" 3], [], none, 1⟩,
      ⟨none, "b", none, [.column ⟨"x", none, [], 5⟩, .column ⟨"y", none, [], 6⟩], [], none, 4⟩]
  partials := [⟨"p", [⟨"k", none, [.ref ⟨.manyToOne, ⟨none, "b", ["x"]⟩⟩], 9⟩], [], none⟩]
  refs :=
    [⟨none, some ⟨none, "a", ["k"]⟩, .manyToOne, none, none, none, 11⟩,
      ⟨none, some ⟨none, "c", ["k"]⟩, .oneToMany, some ⟨none, "b", ["x"]⟩, none, none, 12⟩,
      ⟨none, some ⟨none, "A", ["k", "l"]⟩, .oneToOne, some ⟨none, "b", ["x", "y"]⟩, none, none, 13⟩]
  enums := []

theorem compile_accounts_for_links_mixed : ∃ c tables, compile {} mixedDocument = .ok c ∧
    c.diagram.edges.map Edge.id =
      ["e-public.a-public.b-2-0", "e-public.a-public.b-2-1", "e-public.a-public.b-3-0"] ∧
    c.warnings =
      [.unknownPartial "public.a" "q" 3, .incompleteRef 11, .danglingRef 12 "public.c"] ∧
    expandAll false mixedDocument = .ok tables ∧
    AccountsFor mixedDocument (Link.all (declaredAliases mixedDocument.tables) mixedDocument.refs
      tables) c := by
  have heval : (compile {} mixedDocument).toOption.map
      (fun c => (c.diagram.edges.map Edge.id, c.warnings)) =
        some (["e-public.a-public.b-2-0", "e-public.a-public.b-2-1", "e-public.a-public.b-3-0"],
          [.unknownPartial "public.a" "q" 3, .incompleteRef 11, .danglingRef 12 "public.c"]) := by
    decide +kernel
  obtain ⟨c, hok, hseen⟩ := exists_ok_of_map_toOption heval
  obtain ⟨hedges, hwarnings⟩ := Prod.mk.inj hseen
  obtain ⟨tables, htables, haccounts⟩ := compile_accounts_for_links hok
  exact ⟨c, tables, hok, hedges, hwarnings, htables, haccounts⟩

end SchemaGraph
