import Mathlib.Data.List.Find
import Mathlib.Data.List.Perm.Basic
import SchemaGraph.Proofs.Compilable
import SchemaGraph.Proofs.Redrawing

/-!
# The order of declarations

A document can be written with its tables, references and partials in another order
(`Document.Reorders`). It means the same: it compiles if and only if it did before, and then its
diagram has the same nodes, but for their places, and the same edges, but for their ids, and the
same warnings, each as often as before (`compile_reordered`).

Order matters in two places only. The place of a node and the id of an edge tell positions, and they
are left out of the comparison. And where several partials have one name the last of them counts, so
partials keep their order unless their names differ. Aliases, ids and foreign keys are looked up in
what all tables and links together have left behind, in whichever order they came.
-/

namespace SchemaGraph

/-- An edge but for its id. -/
def Edge.unnumbered (e : Edge) : String × String × String × String × String :=
  (e.source, e.target, e.sourceHandle, e.targetHandle, e.label)

/-- **Two documents declare the same in different orders.** Partials come in different orders only
if their names differ. Neither the project nor the enumerations matter. -/
structure Document.Reorders (d d' : Document) : Prop where
  tables : d.tables.Perm d'.tables
  refs : d.refs.Perm d'.refs
  partials : d.partials = d'.partials ∨
    (d.partials.map Partial.name).Nodup ∧ d.partials.Perm d'.partials

/-- **Two compilations show the same**, in different orders, and thus at different places and under
different ids. -/
structure Compiled.Alike (c c' : Compiled) : Prop where
  nodes : (c.diagram.nodes.map Node.unplaced).Perm (c'.diagram.nodes.map Node.unplaced)
  edges : (c.diagram.edges.map Edge.unnumbered).Perm (c'.diagram.edges.map Edge.unnumbered)
  warnings : c.warnings.Perm c'.warnings

/-- Whatever reorders a document can be undone. -/
theorem Document.Reorders.symm {d d' : Document} (h : d.Reorders d') : d'.Reorders d where
  tables := h.tables.symm
  refs := h.refs.symm
  partials := h.partials.imp Eq.symm fun ⟨hnames, hperm⟩ =>
    ⟨(hperm.map Partial.name).nodup_iff.mp hnames, hperm.symm⟩

/-! ### Looking things up -/

section Lookup

variable {α : Type} {k : String}

/-- Among items with different keys, the order does not matter to what is found under a key. -/
theorem find?_perm {key : α → String} {xs ys : List α} (h : xs.Perm ys)
    (hkeys : (xs.map key).Nodup) : xs.find? (key · == k) = ys.find? (key · == k) := by
  apply List.find?_eq_find?_of_perm h
  rintro x ⟨hx, hxk⟩ y ⟨hy, hyk⟩
  rw [beq_iff_eq] at hxk hyk
  exact List.inj_on_of_nodup_map hkeys hx hy (hxk.trans hyk.symm)

theorem lookup_perm {xs ys : List (String × α)} (h : xs.Perm ys)
    (hkeys : (xs.map Prod.fst).Nodup) : xs.lookup k = ys.lookup k := by
  rw [lookup_eq_map_find?, lookup_eq_map_find?, find?_perm h hkeys]

end Lookup

namespace Document.Reorders

variable {d d' : Document}

/-- Partials are found under their names. -/
theorem findPartial?_eq (h : d.Reorders d') :
    findPartial? d.partials = findPartial? d'.partials := by
  funext name
  rcases h.partials with heq | ⟨hnames, hperm⟩
  · rw [heq]
  · have hreverse : d.partials.reverse.Perm d'.partials.reverse :=
      (d.partials.reverse_perm.trans hperm).trans d'.partials.reverse_perm.symm
    have hnames' : (d.partials.reverse.map Partial.name).Nodup := by
      rw [List.map_reverse]
      exact List.nodup_reverse.mpr hnames
    exact find?_perm hreverse hnames'

/-- So every table has the same expansion. -/
theorem expansion_eq (h : d.Reorders d') :
    Table.expansion d.partials = Table.expansion d'.partials := by
  have hstep : Expansion.step d.partials = Expansion.step d'.partials := by
    funext e item
    cases item with
    | column c => rfl
    | marker name line => simp only [Expansion.step, h.findPartial?_eq]
  funext t
  rw [Table.expansion, Table.expansion, hstep]

/-- Endpoints mean the same tables, where aliases differ. -/
theorem ofEndpoint_eq (h : d.Reorders d') (hdistinct : (d.tables.filterMap Table.shorthand).Nodup) :
    LinkEnd.ofEndpoint (declaredAliases d.tables) =
      LinkEnd.ofEndpoint (declaredAliases d'.tables) := by
  have hperm : (declaredAliases d.tables).Perm (declaredAliases d'.tables) := h.tables.filterMap _
  rw [← map_fst_declaredAliases] at hdistinct
  funext e
  rw [LinkEnd.ofEndpoint, LinkEnd.ofEndpoint, Endpoint.tableId, Endpoint.tableId,
    lookup_perm hperm hdistinct]

end Document.Reorders

/-! ### Links and their outcomes -/

/-- The links of a document depend on aliases by what endpoints mean. -/
theorem Link.all_congr {known known' : Aliases}
    (h : LinkEnd.ofEndpoint known = LinkEnd.ofEndpoint known') : all known = all known' := by
  have href : ofRef known = ofRef known' := by
    funext r
    rw [ofRef, ofRef, h]
  have hcolumn : ofColumn known = ofColumn known' := by
    funext table c
    rw [ofColumn, ofColumn, h]
  funext refs tables
  rw [all, all, href, hcolumn]

theorem Link.all_perm (known : Aliases) {refs refs' : List Ref} {tables tables' : List Expansion}
    (hrefs : refs.Perm refs') (htables : tables.Perm tables') :
    (all known refs tables).Perm (all known refs' tables') :=
  (hrefs.map _).append (htables.flatMap_right _)

/-- What becomes of a link depends on which tables are declared. -/
theorem Link.outcome_congr {declared declared' : List String} (h : declared.Perm declared') :
    outcome declared = outcome declared' := by
  funext l
  simp only [outcome, h.mem_iff]

/-! ### Diagrams -/

/-- A node shows which columns hold foreign keys, wherever these are listed. -/
theorem Expansion.nodeColumn_congr {foreign foreign' : List (String × String)}
    (h : foreign.Perm foreign') (e : Expansion) : e.nodeColumn foreign = e.nodeColumn foreign' := by
  funext c
  have hmem : foreign.contains (e.id, c.name) = foreign'.contains (e.id, c.name) := by
    rw [Bool.eq_iff_iff, List.contains_iff_mem, List.contains_iff_mem, h.mem_iff]
  rw [nodeColumn, nodeColumn, hmem]

theorem map_unplaced_nodes_ofTables (grid : Grid) (tables : List Expansion)
    (outcomes : List LinkOutcome) :
    (Diagram.ofTables grid tables outcomes).nodes.map Node.unplaced = tables.map fun e =>
      (e.id, e.shownName,
        e.columns.map (e.nodeColumn (outcomes.flatMap LinkOutcome.foreignFields))) := by
  conv_rhs => rw [← List.zipIdx_map_fst 0 tables, List.map_map]
  rw [Diagram.ofTables, List.map_map]
  rfl

/-- But for their ids, the edges of a link do not depend on its position. -/
theorem LinkOutcome.map_unnumbered_edges (o : LinkOutcome) (i : Nat) :
    (o.edges i).map Edge.unnumbered = (o.edges 0).map Edge.unnumbered := by
  cases o with
  | dropped w => rfl
  | drawn relation left right =>
    rw [edges, edges, List.map_map, List.map_map]
    rfl

theorem map_unnumbered_edges_ofTables (grid : Grid) (tables : List Expansion)
    (outcomes : List LinkOutcome) :
    (Diagram.ofTables grid tables outcomes).edges.map Edge.unnumbered =
      outcomes.flatMap fun o => (o.edges 0).map Edge.unnumbered := by
  conv_rhs => rw [← List.zipIdx_map_fst 0 outcomes, List.flatMap_map]
  rw [Diagram.ofTables, List.map_flatMap]
  simp only [LinkOutcome.map_unnumbered_edges _ (Prod.snd _)]

/-- Tables and outcomes in another order are shown alike. -/
theorem alike_ofTables (grid : Grid) {tables tables' : List Expansion}
    {outcomes outcomes' : List LinkOutcome} (htables : tables.Perm tables')
    (houtcomes : outcomes.Perm outcomes') :
    Compiled.Alike
      ⟨.ofTables grid tables outcomes,
        tables.flatMap Expansion.warnings ++ outcomes.filterMap LinkOutcome.warning?⟩
      ⟨.ofTables grid tables' outcomes',
        tables'.flatMap Expansion.warnings ++ outcomes'.filterMap LinkOutcome.warning?⟩ where
  nodes := by
    have hforeign : (outcomes.flatMap LinkOutcome.foreignFields).Perm
        (outcomes'.flatMap LinkOutcome.foreignFields) := houtcomes.flatMap_right _
    simp only [map_unplaced_nodes_ofTables, Expansion.nodeColumn_congr hforeign]
    exact htables.map _
  edges := by
    rw [map_unnumbered_edges_ofTables, map_unnumbered_edges_ofTables]
    exact houtcomes.flatMap_right _
  warnings := (htables.flatMap_right _).append (houtcomes.filterMap _)

/-! ### Documents -/

/-- A document that compiles also does so in another order, and shows the same. -/
theorem exists_compile_of_reorders {options : CompileOptions} {d d' : Document} {c : Compiled}
    (h : d.Reorders d') (hc : compile options d = .ok c) :
    ∃ c', compile options d' = .ok c' ∧ c.Alike c' := by
  simp only [compile_eq_ok_iff, aliases_eq_ok_iff, expandAll_eq_ok_iff] at hc ⊢
  obtain ⟨_, tables, outcomes, ⟨rfl, hdistinct, hfree⟩, ⟨htables, hids, hstrict⟩, houtcomes, rfl⟩ :=
    hc
  have hperm : tables.Perm (d'.tables.map (Table.expansion d'.partials)) := by
    rw [htables, h.expansion_eq]
    exact h.tables.map _
  have hlinks : (Link.all (declaredAliases d'.tables) d'.refs
      (d'.tables.map (Table.expansion d'.partials))).Perm
      (Link.all (declaredAliases d.tables) d.refs tables) := by
    rw [Link.all_congr (h.ofEndpoint_eq hdistinct)]
    exact Link.all_perm _ h.refs.symm hperm.symm
  obtain ⟨outcomes', houtcomes', hsame⟩ := List.perm_comp_forall₂ hlinks houtcomes
  refine ⟨_, ⟨_, _, outcomes', ⟨rfl, ?_, ?_⟩, ⟨rfl, ?_, fun hs e he => ?_⟩, ?_, rfl⟩,
    alike_ofTables options.grid hperm hsame.symm⟩
  · exact (h.tables.filterMap _).nodup_iff.mp hdistinct
  · exact (h.tables.pairwise_iff fun hclash => hclash.symm).mp hfree
  · exact (h.tables.map _).nodup_iff.mp hids
  · exact hstrict hs e (hperm.mem_iff.mpr he)
  · rwa [Link.outcome_congr (hperm.symm.map Expansion.id)]

/-- **The order of declarations does not change what a document means.** -/
theorem compile_reordered (options : CompileOptions) {d d' : Document} (h : d.Reorders d') :
    ((∃ c, compile options d = .ok c) ↔ ∃ c', compile options d' = .ok c') ∧
      ∀ c c', compile options d = .ok c → compile options d' = .ok c' → c.Alike c' := by
  refine ⟨⟨?_, ?_⟩, ?_⟩
  · rintro ⟨c, hc⟩
    obtain ⟨c', hc', -⟩ := exists_compile_of_reorders h hc
    exact ⟨c', hc'⟩
  · rintro ⟨c', hc'⟩
    obtain ⟨c, hc, -⟩ := exists_compile_of_reorders h.symm hc'
    exact ⟨c, hc⟩
  · intro c c' hc hc'
    obtain ⟨c'', hc'', halike⟩ := exists_compile_of_reorders h hc
    rw [hc'] at hc''
    cases hc''
    exact halike

/-- A document with everything in reverse. -/
def Document.reversed (d : Document) : Document :=
  { d with
    tables := d.tables.reverse
    partials := d.partials.reverse
    refs := d.refs.reverse }

theorem compile_reordered_reversed : libraryDocument.Reorders libraryDocument.reversed ∧
    ∃ c c', compile {} libraryDocument = .ok c ∧ compile {} libraryDocument.reversed = .ok c' ∧
      c.diagram.edges.map Edge.id =
        ["e-public.books-public.authors-1-0", "e-public.books-public.authors-2-0"] ∧
      c'.diagram.edges.map Edge.id =
        ["e-public.books-public.authors-0-0", "e-public.books-public.authors-2-0"] ∧
      c.Alike c' := by
  have hreorders : libraryDocument.Reorders libraryDocument.reversed :=
    ⟨(List.reverse_perm _).symm, (List.reverse_perm _).symm,
      .inr ⟨by decide, (List.reverse_perm _).symm⟩⟩
  have heval : (compile {} libraryDocument).toOption.map (·.diagram.edges.map Edge.id) =
      some ["e-public.books-public.authors-1-0", "e-public.books-public.authors-2-0"] := by
    decide +kernel
  have heval' : (compile {} libraryDocument.reversed).toOption.map
      (·.diagram.edges.map Edge.id) =
        some ["e-public.books-public.authors-0-0", "e-public.books-public.authors-2-0"] := by
    decide +kernel
  obtain ⟨c, hc, hids⟩ := exists_ok_of_map_toOption heval
  obtain ⟨c', hc', hids'⟩ := exists_ok_of_map_toOption heval'
  exact ⟨hreorders, c, c', hc, hc', hids, hids', (compile_reordered {} hreorders).2 c c' hc hc'⟩

end SchemaGraph
