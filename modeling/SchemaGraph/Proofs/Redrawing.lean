import SchemaGraph.Proofs.SessionSteps

/-!
# Carrying changes by hand over to a new diagram

A new diagram takes over the places of moved nodes, and then the drawn edges one after the other, in
the order in which they were drawn. An edge is taken over when both of its ports are in the diagram
and its id is still free, so that each id goes to whoever comes first: to an edge of the new diagram
itself, or to the first drawn edge that fits (`mem_redrawAll_iff`). Nothing that the new diagram had
is lost but the places of nodes (`unplaced_reapply`, `prefix_reapply`).
-/

namespace SchemaGraph

/-- A node but for its place. -/
def Node.unplaced (n : Node) : String × String × List NodeColumn :=
  (n.id, n.tableName, n.columns)

namespace Diagram

variable {d : Diagram} {e x : Edge}

/-! ### Places -/

theorem unplaced_placeMoved (d : Diagram) (moved : OrderedMap Position) :
    (d.placeMoved moved).nodes.map Node.unplaced = d.nodes.map Node.unplaced := by
  rw [placeMoved, List.map_map]
  rfl

theorem unplaced_place (d : Diagram) (id : String) (position : Position) :
    (d.place id position).nodes.map Node.unplaced = d.nodes.map Node.unplaced := by
  show (placeNode id position d.nodes).map Node.unplaced = d.nodes.map Node.unplaced
  induction d.nodes with
  | nil => rfl
  | cons n rest ih =>
    unfold placeNode
    split
    · rfl
    · rw [List.map_cons, List.map_cons, ih]

/-- Whether a port is there does not depend on places. -/
theorem hasPort_congr {d' : Diagram}
    (h : d'.nodes.map Node.unplaced = d.nodes.map Node.unplaced) (side : Side)
    (node handle : String) : d'.hasPort side node handle = d.hasPort side node handle := by
  have hfind : ∀ d : Diagram, (d.node? node).map Node.unplaced =
      (d.nodes.map Node.unplaced).find? (·.1 == node) := by
    intro d
    rw [List.find?_map]
    rfl
  have hnode := hfind d'
  rw [h, ← hfind d] at hnode
  rw [Bool.eq_iff_iff, hasPort_iff, hasPort_iff]
  cases hd : d.node? node <;> cases hd' : d'.node? node <;> simp [hd, hd', Node.unplaced] at hnode ⊢
  simp [Node.hasColumn, hnode]

theorem fits_congr {d' : Diagram} (h : d'.nodes.map Node.unplaced = d.nodes.map Node.unplaced)
    (e : Edge) : d'.fits e = d.fits e := by
  rw [fits, fits, hasPort_congr h, hasPort_congr h]

/-! ### Edges that are drawn again -/

theorem nodes_redraw (d : Diagram) (x : Edge) : (d.redraw x).nodes = d.nodes := by
  unfold redraw
  split
  · rfl
  · split <;> rfl

theorem edges_redraw (d : Diagram) (x : Edge) : (d.redraw x).edges =
    d.edges ++ if d.fits x = true ∧ d.hasEdge x.id = false then [x] else [] := by
  unfold redraw
  cases hid : d.hasEdge x.id with
  | true => simp
  | false => cases hfits : d.fits x <;> simp [addEdge]

theorem nodes_redrawAll (d : Diagram) (es : List Edge) : (es.foldl redraw d).nodes = d.nodes := by
  induction es generalizing d with
  | nil => rfl
  | cons x es ih => rw [List.foldl_cons, ih, nodes_redraw]

theorem prefix_redrawAll (d : Diagram) (es : List Edge) :
    d.edges <+: (es.foldl redraw d).edges := by
  induction es generalizing d with
  | nil => exact List.prefix_rfl
  | cons x es ih =>
    refine List.IsPrefix.trans ?_ (ih (d.redraw x))
    rw [edges_redraw]
    exact List.prefix_append _ _

theorem mem_redraw_iff : e ∈ (d.redraw x).edges ↔
    e ∈ d.edges ∨ (e = x ∧ d.fits x = true ∧ d.hasEdge x.id = false) := by
  rw [edges_redraw, List.mem_append]
  by_cases h : d.fits x = true ∧ d.hasEdge x.id = false
  · rw [if_pos h, List.mem_singleton, and_iff_left h]
  · rw [if_neg h]
    exact or_congr_right ⟨fun he => (by cases he), fun he => absurd he.2 h⟩

/-- After an edge is drawn again its id is in use, if the edge fits. -/
theorem hasEdge_redraw_iff {id : String} : (d.redraw x).hasEdge id = true ↔
    d.hasEdge id = true ∨ (d.fits x = true ∧ x.id = id) := by
  constructor
  · intro h
    obtain ⟨e, he, rfl⟩ := List.mem_map.mp (hasEdge_iff.mp h)
    rcases mem_redraw_iff.mp he with he | ⟨rfl, hfits, -⟩
    · exact .inl (hasEdge_iff.mpr (List.mem_map_of_mem he))
    · exact .inr ⟨hfits, rfl⟩
  · rintro (h | ⟨hfits, rfl⟩)
    · obtain ⟨e, he, rfl⟩ := List.mem_map.mp (hasEdge_iff.mp h)
      exact hasEdge_iff.mpr (List.mem_map_of_mem (mem_redraw_iff.mpr (.inl he)))
    · unfold redraw
      rw [if_pos hfits]
      split
      · next hused => exact hused
      · rw [hasEdge_iff]
        simp [addEdge]

/-- **Each id goes to whoever comes first**: an edge is in the diagram when it was there before, or
when it fits, its id was free before, and no edge ahead of it that fits has its id. -/
theorem mem_redrawAll_iff {es : List Edge} : e ∈ (es.foldl redraw d).edges ↔
    e ∈ d.edges ∨ ∃ xs ys, es = xs ++ e :: ys ∧ d.fits e = true ∧ d.hasEdge e.id = false ∧
      ∀ x ∈ xs, d.fits x = true → x.id ≠ e.id := by
  induction es generalizing d with
  | nil => simp
  | cons x es ih =>
    have hfits : ∀ e, (d.redraw x).fits e = d.fits e := fits_congr (by rw [nodes_redraw])
    have hfree : (d.redraw x).hasEdge e.id = false ↔
        d.hasEdge e.id = false ∧ (d.fits x = true → x.id ≠ e.id) := by
      rw [← Bool.not_eq_true, hasEdge_redraw_iff, not_or, Bool.not_eq_true, not_and]
    rw [List.foldl_cons, ih, mem_redraw_iff]
    simp only [hfits, hfree]
    constructor
    · rintro ((he | ⟨rfl, he⟩) | ⟨xs, ys, rfl, he, ⟨hid, hx⟩, hxs⟩)
      · exact .inl he
      · exact .inr ⟨[], es, rfl, he.1, he.2, by simp⟩
      · refine .inr ⟨x :: xs, ys, rfl, he, hid, ?_⟩
        exact List.forall_mem_cons.mpr ⟨hx, hxs⟩
    · rintro (he | ⟨xs, ys, hes, he, hid, hxs⟩)
      · exact .inl (.inl he)
      · cases xs with
        | nil =>
          obtain ⟨rfl, rfl⟩ := List.cons.inj hes
          exact .inl (.inr ⟨rfl, he, hid⟩)
        | cons y xs =>
          obtain ⟨rfl, rfl⟩ := List.cons.inj hes
          obtain ⟨hx, hxs⟩ := List.forall_mem_cons.mp hxs
          exact .inr ⟨xs, ys, rfl, he, ⟨hid, hx⟩, hxs⟩

end Diagram

namespace Session

variable {s : Session} {d : Diagram}

/-! ### Both together -/

theorem unplaced_reapply (s : Session) (d : Diagram) :
    (s.reapply d).nodes.map Node.unplaced = d.nodes.map Node.unplaced := by
  rw [reapply, Diagram.nodes_redrawAll, Diagram.unplaced_placeMoved]

theorem prefix_reapply (s : Session) (d : Diagram) : d.edges <+: (s.reapply d).edges :=
  Diagram.prefix_redrawAll (d.placeMoved s.moved) s.drawn

theorem fits_reapply (s : Session) (d : Diagram) (e : Edge) :
    (s.reapply d).fits e = d.fits e :=
  Diagram.fits_congr (unplaced_reapply s d) e

/-- The edges of a diagram with the changes by hand: its own, and the drawn ones that fit and come
first with an id that the diagram does not use. -/
theorem mem_reapply_iff {e : Edge} : e ∈ (s.reapply d).edges ↔
    e ∈ d.edges ∨ ∃ xs ys, s.drawn = xs ++ e :: ys ∧ d.fits e = true ∧ d.hasEdge e.id = false ∧
      ∀ x ∈ xs, d.fits x = true → x.id ≠ e.id := by
  have hfits := Diagram.fits_congr (Diagram.unplaced_placeMoved d s.moved)
  rw [reapply, Diagram.mem_redrawAll_iff]
  simp only [hfits]
  rfl

end Session

end SchemaGraph
