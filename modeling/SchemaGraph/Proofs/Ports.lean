import SchemaGraph.Proofs.Relationships
import SchemaGraph.Proofs.ShownDiagrams

/-!
# Ports of edges

An edge holds on to a column at each of its two nodes, and cannot be drawn where one of them is
missing (`Diagram.HasPorts`). Edges come into a diagram in three ways. One that is drawn by hand is
refused without its ports, and is carried over to a new diagram only with them. A compiled edge,
however, is made for each pair of fields of a reference between declared tables, and nobody asks
whether the fields are columns of these tables: the fields of a reference can be misnamed
(`Link.Misnames`). So a port is missing exactly at the edges of misnamed fields
(`port_missing_iff`), and there are such edges (`misnamed_field_drawn`).
-/

namespace SchemaGraph

namespace Diagram

variable {d d' : Diagram} {e : Edge} {node field : String}

/-! ### Ports -/

/-- A node of a diagram shows a column. -/
def ShowsColumn (d : Diagram) (node field : String) : Prop :=
  ∃ n ∈ d.nodes, n.id = node ∧ field ∈ n.columns.map NodeColumn.name

instance (d : Diagram) (node field : String) : Decidable (d.ShowsColumn node field) :=
  inferInstanceAs (Decidable (∃ n ∈ d.nodes, n.id = node ∧ field ∈ n.columns.map NodeColumn.name))

/-- **An edge has both of its ports**: its nodes show the columns behind its handles. -/
def HasPorts (d : Diagram) (e : Edge) : Prop :=
  d.ShowsColumn e.source e.sourceField ∧ d.ShowsColumn e.target e.targetField

instance (d : Diagram) (e : Edge) : Decidable (d.HasPorts e) :=
  inferInstanceAs (Decidable (_ ∧ _))

theorem hasColumn_iff {n : Node} : n.hasColumn field = true ↔
    field ∈ n.columns.map NodeColumn.name := by
  simp [Node.hasColumn]

/-- Where ids tell nodes apart, looking up an id finds the node that has it. -/
theorem node?_eq_some_iff (hdistinct : (d.nodes.map Node.id).Nodup) {n : Node} :
    d.node? node = some n ↔ n ∈ d.nodes ∧ n.id = node := by
  have hfound : ∀ m, d.node? node = some m → m ∈ d.nodes ∧ m.id = node := by
    intro m hm
    exact ⟨List.mem_of_find?_eq_some hm, by simpa using List.find?_some hm⟩
  constructor
  · exact hfound n
  · rintro ⟨hn, hid⟩
    cases hm : d.node? node with
    | none =>
      rw [node?_eq_none_iff] at hm
      exact absurd (hid ▸ List.mem_map_of_mem hn) hm
    | some m =>
      obtain ⟨hm, hid'⟩ := hfound m hm
      rw [List.inj_on_of_nodup_map hdistinct hm hn (hid'.trans hid.symm)]

/-- Where ids tell nodes apart, a port is there when the node shows the column behind the handle. -/
theorem hasPort_iff_showsColumn (hdistinct : (d.nodes.map Node.id).Nodup) {side : Side}
    {handle : String} :
    d.hasPort side node handle = true ↔ d.ShowsColumn node (side.field handle) := by
  simp only [hasPort_iff, node?_eq_some_iff hdistinct, hasColumn_iff, ShowsColumn, and_assoc]

theorem fits_iff_hasPorts (hdistinct : (d.nodes.map Node.id).Nodup) :
    d.fits e = true ↔ d.HasPorts e := by
  rw [fits_iff, hasPort_iff_showsColumn hdistinct, hasPort_iff_showsColumn hdistinct]
  rfl

/-- A column is shown by whoever shows the same nodes, wherever they stand. -/
theorem ShowsColumn.of_unplaced (h : d.ShowsColumn node field)
    (hnodes : ∀ n ∈ d.nodes, n.id = node → ∃ n' ∈ d'.nodes, n.unplaced = n'.unplaced) :
    d'.ShowsColumn node field := by
  obtain ⟨n, hn, hid, hcolumn⟩ := h
  obtain ⟨n', hn', hsame⟩ := hnodes n hn hid
  obtain ⟨hids, -, hcolumns⟩ : n.id = n'.id ∧ n.tableName = n'.tableName ∧
      n.columns = n'.columns := by simpa [Node.unplaced] using hsame
  exact ⟨n', hn', hids ▸ hid, hcolumns ▸ hcolumn⟩

theorem HasPorts.of_unplaced (h : d.HasPorts e)
    (hnodes : d'.nodes.map Node.unplaced = d.nodes.map Node.unplaced) : d'.HasPorts e := by
  have hmem : ∀ n ∈ d.nodes, ∃ n' ∈ d'.nodes, n.unplaced = n'.unplaced := by
    intro n hn
    have hn' : n.unplaced ∈ d'.nodes.map Node.unplaced := hnodes ▸ List.mem_map_of_mem hn
    obtain ⟨n', hn', hsame⟩ := List.mem_map.mp hn'
    exact ⟨n', hn', hsame.symm⟩
  exact ⟨h.1.of_unplaced fun n hn _ => hmem n hn, h.2.of_unplaced fun n hn _ => hmem n hn⟩

/-- An edge that is left when a node is removed keeps its ports. -/
theorem HasPorts.removeNode {id : String} (h : d.HasPorts e)
    (he : e ∈ (d.removeNode id).edges) : (d.removeNode id).HasPorts e := by
  obtain ⟨-, hsource, htarget⟩ := mem_edges_removeNode he
  have hkept : ∀ node, node ≠ id → ∀ n ∈ d.nodes, n.id = node →
      ∃ n' ∈ (d.removeNode id).nodes, n.unplaced = n'.unplaced := by
    intro node hne n hn hid
    exact ⟨n, List.mem_filter.mpr ⟨hn, by simp [hid, hne]⟩, rfl⟩
  exact ⟨h.1.of_unplaced (hkept _ hsource), h.2.of_unplaced (hkept _ htarget)⟩

end Diagram

/-! ### Edges that are drawn by hand -/

theorem CompilesTo.unique {settings : SessionSettings} {text : String} {c c' : Compiled}
    (h : CompilesTo settings text c) (h' : CompilesTo settings text c') : c = c' := by
  obtain ⟨document, hparse, hcompile⟩ := h
  obtain ⟨document', hparse', hcompile'⟩ := h'
  obtain rfl : document = document' := Except.ok.inj (hparse.symm.trans hparse')
  exact Except.ok.inj (hcompile.symm.trans hcompile')

namespace Session

variable {s s' : Session}

/-- Every edge that a session shows is compiled from its text, or has both of its ports. -/
def Ported (s : Session) : Prop :=
  ∀ d, s.view = .compiled d → ∃ c, CompilesTo s.settings s.text c ∧
    ∀ e ∈ d.edges, e ∈ c.diagram.edges ∨ d.HasPorts e

theorem ported_of_view {d : Diagram} {c : Compiled} (hview : s.view = .compiled d)
    (hc : CompilesTo s.settings s.text c)
    (hedges : ∀ e ∈ d.edges, e ∈ c.diagram.edges ∨ d.HasPorts e) : s.Ported := by
  intro d' h
  rw [hview] at h
  cases h
  exact ⟨c, hc, hedges⟩

/-- Edges are carried over to a new diagram with their ports only. -/
theorem ported_update (s : Session) (text : String) : (s.update text).Ported := by
  intro d hview
  obtain ⟨c, hread, rfl⟩ := view_update_eq_compiled_iff.mp hview
  obtain ⟨document, hparse, hcompile⟩ := (reading_eq_compiled_iff.mp hread).2
  refine ⟨c, ?_, fun e he => ?_⟩
  · rw [settings_update, update_eq]
    exact ⟨document, hparse, hcompile⟩
  · rcases mem_reapply_iff.mp he with he | ⟨_, _, -, hfits, -⟩
    · exact .inl he
    · rw [Diagram.fits_iff_hasPorts (sound_of_compile hcompile).nodes_distinct] at hfits
      exact .inr (hfits.of_unplaced (unplaced_reapply _ _))

/-- Every edit keeps the ports of the edges that are drawn by hand. -/
theorem ported_perform {edit : Edit} (hsound : s.Sound) (hs : s.Ported)
    (h : s.perform edit = .ok s') : s'.Ported := by
  cases edit with
  | update text =>
    cases h
    exact ported_update s text
  | move id position =>
    obtain ⟨d, hview, -, rfl⟩ := move_eq_ok_iff.mp h
    obtain ⟨c, hc, hedges⟩ := hs d hview
    refine ported_of_view rfl hc fun e he => (hedges e he).imp_right fun hports => ?_
    exact hports.of_unplaced (Diagram.unplaced_place d id position)
  | connect connection millis =>
    obtain ⟨id, h⟩ := perform_connect_eq_ok_iff.mp h
    obtain ⟨d, hview, hsource, htarget, -, rfl⟩ := connect_eq_ok_iff.mp h
    obtain ⟨c, hc, hedges⟩ := hs d hview
    refine ported_of_view rfl hc fun e he => ?_
    rcases List.mem_append.mp he with he | he
    · exact hedges e he
    · obtain rfl := List.mem_singleton.mp he
      have hfits := connection.fits_edge hsource htarget id
      exact .inr ((Diagram.fits_iff_hasPorts (hsound d hview).nodes_distinct).mp hfits)
  | deleteNode id =>
    obtain ⟨d, hview, -, rfl⟩ := deleteNode_eq_ok_iff.mp h
    obtain ⟨c, hc, hedges⟩ := hs d hview
    refine ported_of_view rfl hc fun e he => ?_
    have hmem := (Diagram.mem_edges_removeNode he).1
    exact (hedges e hmem).imp_right fun hports => hports.removeNode he
  | deleteEdge id =>
    obtain ⟨d, hview, -, rfl⟩ := deleteEdge_eq_ok_iff.mp h
    obtain ⟨c, hc, hedges⟩ := hs d hview
    exact ported_of_view rfl hc fun e he => hedges e (List.mem_filter.mp he).1

/-- In every run the edges that are drawn by hand have their ports. -/
theorem ported_run (settings : SessionSettings) (edits : List Edit) :
    ((start settings).run edits).Ported := by
  have hstart : (start settings).Ported := by
    intro d h
    cases h
  have hrun := run_invariant (P := fun s => s.Sound ∧ s.Ported) ⟨sound_start settings, hstart⟩
    (fun _ _ _ hs h => ⟨sound_perform hs.1 h, ported_perform hs.1 hs.2 h⟩) edits
  exact hrun.2

end Session

/-! ### Edges that are compiled -/

/-- A table has a column, its own or an injected one. -/
def HasTableColumn (tables : List Expansion) (table field : String) : Prop :=
  ∃ t ∈ tables, t.id = table ∧ field ∈ t.columns.map Column.name

/-- **A link misnames a field**: at a position, one of its ends names what is no column of the table
on which it lies. -/
inductive Link.Misnames (tables : List Expansion) (l : Link) (j : Nat) : Prop
  | left {tip : LinkEnd} {field : String} (hend : l.left = some tip)
    (hfield : tip.fields[j]? = some field) (hcolumn : ¬ HasTableColumn tables tip.table field)
  | right {tip : LinkEnd} {field : String} (hend : l.right = some tip)
    (hfield : tip.fields[j]? = some field) (hcolumn : ¬ HasTableColumn tables tip.table field)

/-- The nodes of a compiled diagram show the columns of the tables. -/
theorem showsColumn_ofTables_iff {grid : Grid} {tables : List Expansion}
    {outcomes : List LinkOutcome} {node field : String} :
    (Diagram.ofTables grid tables outcomes).ShowsColumn node field ↔
      HasTableColumn tables node field := by
  have hnames : ∀ (t : Expansion) foreign position,
      (t.node foreign position).columns.map NodeColumn.name = t.columns.map Column.name := by
    intro t foreign position
    rw [Expansion.node, List.map_map]
    rfl
  constructor
  · rintro ⟨n, hn, hid, hcolumn⟩
    obtain ⟨⟨t, i⟩, ht, rfl⟩ := List.mem_map.mp hn
    exact ⟨t, List.fst_mem_of_mem_zipIdx ht, hid, hnames t _ _ ▸ hcolumn⟩
  · rintro ⟨t, ht, hid, hcolumn⟩
    obtain ⟨i, hi⟩ := List.mem_iff_getElem?.mp ht
    exact ⟨_, List.mem_map_of_mem (List.mk_mem_zipIdx_iff_getElem?.mpr hi), hid,
      (hnames t _ _).symm ▸ hcolumn⟩

namespace Link

variable {tables : List Expansion} {l : Link} {i j : Nat} {e : Edge}

/-- The edge of a link at a position runs between the fields that the ends name there. -/
theorem edgeAt_eq_some_iff : l.edgeAt i j = some e ↔
    ∃ left right source target, l.left = some left ∧ l.right = some right ∧
      left.fields[j]? = some source ∧ right.fields[j]? = some target ∧
      e = .between (LinkOutcome.edgeId left.table right.table i j) left.table source
        right.table target := by
  simp only [edgeAt, Option.bind_eq_bind, Option.bind_eq_some_iff, Option.pure_def,
    Option.some.injEq]
  constructor
  · rintro ⟨left, hl, right, hr, source, hs, target, ht, rfl⟩
    exact ⟨left, right, source, target, hl, hr, hs, ht, rfl⟩
  · rintro ⟨left, right, source, target, hl, hr, hs, ht, rfl⟩
    exact ⟨left, hl, right, hr, source, hs, target, ht, rfl⟩

/-- The fields of a link at a position are columns exactly when its edge there has columns at both
ends. -/
theorem misnames_iff (h : l.edgeAt i j = some e) : l.Misnames tables j ↔
    ¬ (HasTableColumn tables e.source e.sourceField ∧
      HasTableColumn tables e.target e.targetField) := by
  obtain ⟨left, right, source, target, hl, hr, hs, ht, rfl⟩ := edgeAt_eq_some_iff.mp h
  simp only [Edge.sourceField, Edge.targetField, Edge.between, Side.field_handle, not_and_or]
  constructor
  · rintro (⟨hend, hfield, hcolumn⟩ | ⟨hend, hfield, hcolumn⟩)
    · rw [hl] at hend
      cases hend
      rw [hs] at hfield
      cases hfield
      exact .inl hcolumn
    · rw [hr] at hend
      cases hend
      rw [ht] at hfield
      cases hfield
      exact .inr hcolumn
  · rintro (hcolumn | hcolumn)
    · exact .left hl hs hcolumn
    · exact .right hr ht hcolumn

end Link

/-- Every compiled edge is the one of a link at some position. -/
theorem exists_edgeAt_of_mem_edges {options : CompileOptions} {document : Document} {c : Compiled}
    {tables : List Expansion} (h : compile options document = .ok c)
    (htables : expandAll options.strict document = .ok tables) {e : Edge}
    (he : e ∈ c.diagram.edges) :
    ∃ (i j : Nat) (l : Link),
      (Link.all (declaredAliases document.tables) document.refs tables)[i]? = some l ∧
      l.edgeAt i j = some e := by
  obtain ⟨known, tables', outcomes, hknown, htables', houtcomes, rfl⟩ := compile_eq_ok_iff.mp h
  obtain rfl := aliases_eq hknown
  obtain rfl : tables = tables' := Except.ok.inj (htables.symm.trans htables')
  obtain ⟨⟨o, i⟩, ho, he⟩ := List.mem_flatMap.mp he
  obtain ⟨⟨l, i'⟩, hl, houtcome, rfl⟩ := exists_mem_of_forall₂ (forall₂_zipIdx houtcomes 0) ho
  obtain ⟨-, hedges, -⟩ := Link.outcome_spec houtcome
  have hsome : some e ∈ (o.edges i').map some := List.mem_map_of_mem he
  rw [hedges] at hsome
  split_ifs at hsome
  · obtain ⟨j, -, hj⟩ := List.mem_map.mp hsome
    exact ⟨i', j, l, List.mk_mem_zipIdx_iff_getElem?.mp hl, hj⟩
  · cases hsome

namespace Diagram

variable {d compiled : Diagram} {moved : OrderedMap Position} {drawn : List Edge}

/-- An edge that is shown has its ports when the compiled diagram has them: what is shown of the
nodes is what is compiled. -/
theorem Follows.hasPorts_iff (h : d.Follows compiled moved drawn) (hd : d.Sound)
    (hcompiled : compiled.Sound) {e : Edge} (he : e ∈ d.edges) :
    d.HasPorts e ↔ compiled.HasPorts e := by
  have hshown : ∀ n ∈ d.nodes, ∃ n₀ ∈ compiled.nodes, n.unplaced = n₀.unplaced := by
    intro n hn
    obtain ⟨n₀, hn₀, hsame, -⟩ := h.nodes n hn
    exact ⟨n₀, hn₀, hsame⟩
  -- the compiled node with the id of a shown node is the one that it comes from
  have hback : ∀ node ∈ d.nodes.map Node.id, ∀ n₀ ∈ compiled.nodes, n₀.id = node →
      ∃ n ∈ d.nodes, n₀.unplaced = n.unplaced := by
    intro node hnode n₀ hn₀ hid
    obtain ⟨n, hn, rfl⟩ := List.mem_map.mp hnode
    obtain ⟨n₁, hn₁, hsame⟩ := hshown n hn
    have hids : n.id = n₁.id := congrArg Prod.fst hsame
    obtain rfl : n₀ = n₁ :=
      List.inj_on_of_nodup_map hcompiled.nodes_distinct hn₀ hn₁ (hid.trans hids)
    exact ⟨n, hn, hsame.symm⟩
  obtain ⟨hsource, htarget⟩ := hd.anchored e he
  constructor
  · intro hports
    exact ⟨hports.1.of_unplaced fun n hn _ => hshown n hn,
      hports.2.of_unplaced fun n hn _ => hshown n hn⟩
  · intro hports
    exact ⟨hports.1.of_unplaced (hback _ hsource), hports.2.of_unplaced (hback _ htarget)⟩

end Diagram

/-- **When a port is missing.** Of a diagram that is shown after a run, every edge that is not
compiled from the last text has both of its ports. An edge lacks a port exactly when it is the edge
of a reference, declared or set at a column, that misnames a field at this position. -/
theorem port_missing_iff (settings : SessionSettings) (edits : List Edit) {d : Diagram}
    (h : ((Session.start settings).run edits).view = .compiled d) :
    ∃ text document c tables, lastText? edits = some text ∧
      Document.parse settings.dialect text = .ok document ∧
      compile settings.compile document = .ok c ∧
      expandAll settings.compile.strict document = .ok tables ∧
      (∀ e ∈ d.edges, e ∉ c.diagram.edges → d.HasPorts e) ∧
      ∀ e ∈ d.edges, ¬ d.HasPorts e ↔
        ∃ (i j : Nat) (l : Link),
          (Link.all (declaredAliases document.tables) document.refs tables)[i]? = some l ∧
          l.edgeAt i j = some e ∧ l.Misnames tables j := by
  obtain ⟨text, c, htext, hcompiles, hd⟩ := follows_of_view h
  obtain ⟨document, hparse, hcompile⟩ := hcompiles
  obtain ⟨known, tables, outcomes, hknown, htables, houtcomes, hc⟩ := compile_eq_ok_iff.mp hcompile
  have hdrawn : ∀ e ∈ d.edges, e ∉ c.diagram.edges → d.HasPorts e := by
    obtain ⟨c', hcompiles', hedges⟩ := Session.ported_run settings edits d h
    rw [Session.settings_run, ← Option.some.inj (htext.symm.trans (Session.lastText?_of_view h))]
      at hcompiles'
    obtain rfl := hcompiles'.unique ⟨document, hparse, hcompile⟩
    exact fun e he hnot => (hedges e he).resolve_left hnot
  have hcolumns : ∀ e ∈ d.edges, d.HasPorts e ↔ HasTableColumn tables e.source e.sourceField ∧
      HasTableColumn tables e.target e.targetField := by
    intro e he
    rw [hd.hasPorts_iff (Session.sound_run settings edits d h) (sound_of_compile hcompile) he, hc,
      Diagram.HasPorts, showsColumn_ofTables_iff, showsColumn_ofTables_iff]
  refine ⟨text, document, c, tables, htext, hparse, hcompile, htables, hdrawn, fun e he => ?_⟩
  constructor
  · intro hmissing
    have hmem : e ∈ c.diagram.edges := by
      by_contra hnot
      exact hmissing (hdrawn e he hnot)
    obtain ⟨i, j, l, hl, hedge⟩ := exists_edgeAt_of_mem_edges hcompile htables hmem
    refine ⟨i, j, l, hl, hedge, (Link.misnames_iff hedge).mpr ?_⟩
    rwa [← hcolumns e he]
  · rintro ⟨i, j, l, -, hedge, hmisnames⟩
    rw [hcolumns e he]
    exact (Link.misnames_iff hedge).mp hmisnames

/-! ### A reference to a field that is no column -/

/-- A reference between columns, and one that names a field which its table does not have. -/
def misnamedField : String :=
  "Table a{x i}\nTable b{y i}\nRef: a.x > b.y\nRef: a.z > b.y"

/-- Of three edges, one of which is drawn by hand, the one of the misnamed field lacks a port, and
it is the edge of a reference that misnames a field. -/
theorem port_missing_iff_misnamed :
    let c : Connection := ⟨"public.b", "source-y", "public.a", "target-x"⟩
    let edits : List Edit := [.update misnamedField, .connect c 5]
    ∃ d document tables, ((Session.start {}).run edits).view = .compiled d ∧
      d.edges.map (fun e => (e.id, decide (d.HasPorts e))) =
        [("e-public.a-public.b-0-0", true), ("e-public.a-public.b-1-0", false),
          ("e-public.b-public.a-5", true)] ∧
      Document.parse .partials misnamedField = .ok document ∧
      expandAll false document = .ok tables ∧
      ∃ e ∈ d.edges, e.id = "e-public.a-public.b-1-0" ∧ ∃ (i j : Nat) (l : Link),
        (Link.all (declaredAliases document.tables) document.refs tables)[i]? = some l ∧
        l.edgeAt i j = some e ∧ l.Misnames tables j := by
  intro c edits
  have heval : ((Session.start {}).run edits).view.diagram?.map
      (fun d => d.edges.map fun e => (e.id, decide (d.HasPorts e))) =
        some [("e-public.a-public.b-0-0", true), ("e-public.a-public.b-1-0", false),
          ("e-public.b-public.a-5", true)] := by
    decide +kernel
  obtain ⟨d, hview, hports⟩ := Session.exists_view_of_map_diagram? heval
  obtain ⟨text, document, compiled, tables, htext, hparse, -, htables, -, hmissing⟩ :=
    port_missing_iff {} edits hview
  obtain rfl : misnamedField = text := Option.some.inj htext
  have hmem : ("e-public.a-public.b-1-0", false) ∈
      d.edges.map fun e => (e.id, decide (d.HasPorts e)) := by
    rw [hports]
    decide
  obtain ⟨e, he, hseen⟩ := List.mem_map.mp hmem
  obtain ⟨hid, hnone⟩ := Prod.mk.inj hseen
  exact ⟨d, document, tables, hview, hports, hparse, htables, e, he, hid,
    (hmissing e he).mp (of_decide_eq_false hnone)⟩

/-- **An edge can lack a port.** It is compiled from a reference to a field of a table that has no
such column. -/
theorem misnamed_field_drawn : ∃ d,
    ((Session.start {}).run [.update "Table a \x7b\n  x int\n\x7d\nRef: a.z > a.x"]).view =
      .compiled d ∧ ∃ e ∈ d.edges, ¬ d.HasPorts e := by
  have heval : ((Session.start {}).run
      [.update "Table a \x7b\n  x int\n\x7d\nRef: a.z > a.x"]).view.diagram?.map
        (fun d => d.edges.any fun e => !decide (d.HasPorts e)) = some true := by
    decide +kernel
  obtain ⟨d, hview, hany⟩ := Session.exists_view_of_map_diagram? heval
  obtain ⟨e, he, hnone⟩ := List.any_eq_true.mp hany
  exact ⟨d, hview, e, he, by simpa using hnone⟩

end SchemaGraph
