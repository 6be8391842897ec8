import SchemaGraph.Proofs.Compilation
import SchemaGraph.Proofs.EdgeIds

/-!
# Sound diagrams

A diagram is sound when its nodes have different ids, its edges have different ids, and every edge
runs between nodes of the diagram (`Diagram.Sound`). This module shows that the diagram of a
document is sound (`sound_of_compile`), and that whatever can be done to a diagram keeps it so:
nodes are moved, edges are drawn under free ids between nodes that are there, nodes are removed
together with their edges, edges are removed, and edges drawn earlier are drawn again
(`Sound.redrawAll`).
-/

namespace SchemaGraph

namespace Diagram

/-- **A diagram is sound**: ids tell nodes apart and edges apart, and no edge is left without an
end. -/
structure Sound (d : Diagram) : Prop where
  nodes_distinct : (d.nodes.map Node.id).Nodup
  edges_distinct : (d.edges.map Edge.id).Nodup
  anchored : ∀ e ∈ d.edges, e.source ∈ d.nodes.map Node.id ∧ e.target ∈ d.nodes.map Node.id

variable {d : Diagram}

/-! ### Looking things up -/

theorem hasNode_iff {id : String} : d.hasNode id = true ↔ id ∈ d.nodes.map Node.id := by
  simp [hasNode]

theorem node?_eq_none_iff {id : String} : d.node? id = none ↔ id ∉ d.nodes.map Node.id := by
  simp [node?]

theorem checkPort_eq_ok_iff {side : Side} {node handle : String} {u : Unit} :
    d.checkPort side node handle = .ok u ↔
      ∃ n, d.node? node = some n ∧ n.hasColumn (side.field handle) = true := by
  unfold checkPort
  cases hn : d.node? node with
  | none => simp
  | some n => cases hc : n.hasColumn (side.field handle) <;> simp [hc]

theorem hasPort_iff {side : Side} {node handle : String} :
    d.hasPort side node handle = true ↔
      ∃ n, d.node? node = some n ∧ n.hasColumn (side.field handle) = true := by
  rw [← checkPort_eq_ok_iff (u := ()), hasPort]
  cases d.checkPort side node handle <;> simp [Except.toBool]

/-- A port is on a node of the diagram. -/
theorem mem_nodes_of_hasPort {side : Side} {node handle : String}
    (h : d.hasPort side node handle = true) : node ∈ d.nodes.map Node.id := by
  obtain ⟨n, hn, -⟩ := hasPort_iff.mp h
  by_contra hnot
  rw [node?_eq_none_iff.mpr hnot] at hn
  cases hn

theorem fits_iff {e : Edge} : d.fits e = true ↔
    d.hasPort .source e.source e.sourceHandle = true ∧
      d.hasPort .target e.target e.targetHandle = true := by
  simp [fits]

/-! ### Moving nodes -/

theorem map_id_placeNode (id : String) (position : Position) (ns : List Node) :
    (placeNode id position ns).map Node.id = ns.map Node.id := by
  induction ns with
  | nil => rfl
  | cons n ns ih =>
    unfold placeNode
    split
    · rfl
    · rw [List.map_cons, List.map_cons, ih]

theorem map_id_placeMoved (d : Diagram) (moved : OrderedMap Position) :
    (d.placeMoved moved).nodes.map Node.id = d.nodes.map Node.id := by
  simp [placeMoved, Function.comp_def]

/-- Soundness is a matter of ids and edges. -/
theorem Sound.of_ids {d' : Diagram} (h : d.Sound)
    (hnodes : d'.nodes.map Node.id = d.nodes.map Node.id) (hedges : d'.edges = d.edges) :
    d'.Sound := by
  refine ⟨?_, ?_, ?_⟩
  · rw [hnodes]
    exact h.nodes_distinct
  · rw [hedges]
    exact h.edges_distinct
  · rw [hnodes, hedges]
    exact h.anchored

theorem Sound.place (h : d.Sound) (id : String) (position : Position) :
    (d.place id position).Sound :=
  h.of_ids (map_id_placeNode id position d.nodes) rfl

theorem Sound.placeMoved (h : d.Sound) (moved : OrderedMap Position) :
    (d.placeMoved moved).Sound :=
  h.of_ids (map_id_placeMoved d moved) rfl

/-! ### Drawing edges -/

/-- An edge under a free id between nodes that are there can be drawn. -/
theorem Sound.addEdge (h : d.Sound) {e : Edge} (hid : e.id ∉ d.edges.map Edge.id)
    (hsource : e.source ∈ d.nodes.map Node.id) (htarget : e.target ∈ d.nodes.map Node.id) :
    (d.addEdge e).Sound := by
  refine ⟨h.nodes_distinct, ?_, ?_⟩
  · simp only [Diagram.addEdge, List.map_append, List.map_cons, List.map_nil]
    rw [List.nodup_append_comm]
    exact List.nodup_cons.mpr ⟨hid, h.edges_distinct⟩
  · intro e' he'
    rcases List.mem_append.mp he' with he' | he'
    · exact h.anchored e' he'
    · rw [List.mem_singleton.mp he']
      exact ⟨hsource, htarget⟩

/-- Drawing an edge again goes by its id and its ports. -/
theorem Sound.redraw (h : d.Sound) (e : Edge) : (d.redraw e).Sound := by
  unfold Diagram.redraw
  by_cases hid : d.hasEdge e.id = true
  · rw [if_pos hid]
    exact h
  · rw [if_neg hid]
    by_cases hfits : d.fits e = true
    · rw [if_pos hfits]
      obtain ⟨hs, ht⟩ := fits_iff.mp hfits
      exact h.addEdge (fun hm => hid (hasEdge_iff.mpr hm)) (mem_nodes_of_hasPort hs)
        (mem_nodes_of_hasPort ht)
    · rw [if_neg hfits]
      exact h

/-- Any number of edges can be drawn again. -/
theorem Sound.redrawAll (h : d.Sound) (es : List Edge) : (es.foldl Diagram.redraw d).Sound := by
  induction es generalizing d with
  | nil => exact h
  | cons e es ih => exact ih (h.redraw e)

/-! ### Removing -/

theorem carries_iff {e : Edge} : d.carries e = true ↔
    e.source ∈ d.nodes.map Node.id ∧ e.target ∈ d.nodes.map Node.id := by
  rw [carries, Bool.and_eq_true, hasNode_iff, hasNode_iff]

theorem Sound.removeNode (h : d.Sound) (id : String) : (d.removeNode id).Sound where
  nodes_distinct := h.nodes_distinct.sublist (List.filter_sublist.map Node.id)
  edges_distinct := h.edges_distinct.sublist (List.filter_sublist.map Edge.id)
  anchored := fun _ he => carries_iff.mp (List.mem_filter.mp he).2

theorem Sound.removeEdge (h : d.Sound) (id : String) : (d.removeEdge id).Sound where
  nodes_distinct := h.nodes_distinct
  edges_distinct := h.edges_distinct.sublist (List.filter_sublist.map Edge.id)
  anchored := fun e he => h.anchored e (List.mem_filter.mp he).1

end Diagram

/-! ### Compiled diagrams -/

theorem map_id_nodes_ofTables (grid : Grid) (tables : List Expansion)
    (outcomes : List LinkOutcome) :
    (Diagram.ofTables grid tables outcomes).nodes.map Node.id = tables.map Expansion.id := by
  conv_rhs => rw [← List.zipIdx_map_fst 0 tables, List.map_map]
  rw [Diagram.ofTables, List.map_map]
  rfl

/-- Positions tell the items of a list apart. -/
theorem pairwise_zipIdx_ne {α : Type} (xs : List α) :
    xs.zipIdx.Pairwise fun a b => a.2 ≠ b.2 := by
  rw [← List.pairwise_map, List.zipIdx_map_snd]
  exact List.nodup_range'

namespace LinkOutcome

/-- The edges of a link that is drawn, one for each position of its fields. -/
theorem mem_edges_iff {o : LinkOutcome} {i : Nat} {e : Edge} : e ∈ o.edges i ↔
    ∃ relation left right j source target, o = .drawn relation left right ∧
      left.fields[j]? = some source ∧ right.fields[j]? = some target ∧
      e = .between (edgeId left.table right.table i j) left.table source right.table target := by
  cases o with
  | dropped w => simp [edges]
  | drawn relation left right =>
    simp only [edges, List.mem_map, Prod.exists, List.mk_mem_zipIdx_iff_getElem?,
      List.getElem?_zip_eq_some, drawn.injEq]
    constructor
    · rintro ⟨source, target, j, ⟨hs, ht⟩, rfl⟩
      exact ⟨relation, left, right, j, source, target, ⟨rfl, rfl, rfl⟩, hs, ht, rfl⟩
    · rintro ⟨_, _, _, j, source, target, ⟨rfl, rfl, rfl⟩, hs, ht, rfl⟩
      exact ⟨source, target, j, ⟨hs, ht⟩, rfl⟩

/-- The edges of one link have different ids. -/
theorem nodup_ids_edges (o : LinkOutcome) (i : Nat) : ((o.edges i).map Edge.id).Nodup := by
  cases o with
  | dropped => exact List.nodup_nil
  | drawn relation left right =>
    rw [edges, List.map_map, List.Nodup, List.pairwise_map]
    refine (pairwise_zipIdx_ne _).imp ?_
    rintro ⟨_, j⟩ ⟨_, j'⟩ hne heq
    exact hne (edgeId_inj heq).2

/-- The ids of the edges of two links at different positions differ. -/
theorem disjoint_ids_edges (o o' : LinkOutcome) {i i' : Nat} (hne : i ≠ i') :
    ((o.edges i).map Edge.id).Disjoint ((o'.edges i').map Edge.id) := by
  intro id h h'
  obtain ⟨e, he, rfl⟩ := List.mem_map.mp h
  obtain ⟨e', he', hid⟩ := List.mem_map.mp h'
  obtain ⟨_, _, _, _, _, _, -, -, -, rfl⟩ := mem_edges_iff.mp he
  obtain ⟨_, _, _, _, _, _, -, -, -, rfl⟩ := mem_edges_iff.mp he'
  exact hne (edgeId_inj hid).1.symm

end LinkOutcome

/-- The edges of different links, and of different fields, have different ids. -/
theorem nodup_ids_edges_ofTables (grid : Grid) (tables : List Expansion)
    (outcomes : List LinkOutcome) :
    ((Diagram.ofTables grid tables outcomes).edges.map Edge.id).Nodup := by
  rw [Diagram.ofTables, List.map_flatMap, List.nodup_flatMap]
  refine ⟨fun x _ => LinkOutcome.nodup_ids_edges x.1 x.2, ?_⟩
  exact (pairwise_zipIdx_ne outcomes).imp fun hne => LinkOutcome.disjoint_ids_edges _ _ hne

/-- **The diagram of a document is sound.** -/
theorem sound_of_compile {options : CompileOptions} {d : Document} {c : Compiled}
    (h : compile options d = .ok c) : c.diagram.Sound := by
  obtain ⟨known, tables, outcomes, -, htables, houtcomes, rfl⟩ := compile_eq_ok_iff.mp h
  refine ⟨?_, nodup_ids_edges_ofTables _ _ _, ?_⟩
  · rw [map_id_nodes_ofTables]
    exact expandAll_ids_nodup htables
  · intro e he
    rw [map_id_nodes_ofTables]
    obtain ⟨⟨o, i⟩, ho, he⟩ := List.mem_flatMap.mp he
    obtain ⟨relation, left, right, _, _, _, rfl, -, -, rfl⟩ := LinkOutcome.mem_edges_iff.mp he
    obtain ⟨l, -, hl⟩ := exists_mem_of_forall₂ houtcomes
      (List.fst_mem_of_mem_zipIdx ho)
    exact Link.declared_of_drawn hl

end SchemaGraph
