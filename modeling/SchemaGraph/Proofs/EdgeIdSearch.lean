import SchemaGraph.Proofs.SessionSteps

/-!
# The search for a free edge id

An edge that is drawn by hand gets an id which no edge of the diagram has. The first candidate is
made of the two nodes and the time. As long as an edge has the candidate, the search goes on with
the next one, which has a number behind it, and nothing in the search counts how often it goes on
(`Diagram.Seeks`). The candidates differ from each other, so that at most as many of them are taken
as there are edges: the search ends, at one place only, and what it finds is the id of the new edge
(`connect_seeks_id`). This asks nothing of the diagram; its edges may well share their ids.
-/

namespace SchemaGraph

namespace Diagram

/-- **The search for a free id**, from a candidate and the number of the next one. It ends at a
candidate that no edge has, after a count of collisions; a candidate that an edge has is a
collision, and the search goes on with the next one. -/
inductive Seeks (d : Diagram) (base : String) : String → Nat → Nat → String → Prop
  | free {id : String} {n : Nat} (hfree : d.hasEdge id = false) : Seeks d base id n 0 id
  | taken {id found : String} {n collisions : Nat} (htaken : d.hasEdge id = true)
      (hrest : Seeks d base (base ++ "-" ++ toString n) (n + 1) collisions found) :
      Seeks d base id n (collisions + 1) found

/-- **The least free id**: the base if no edge has it, and otherwise the base with the least number
behind it with which no edge has it. -/
structure LeastFree (d : Diagram) (base id : String) : Prop where
  free : id ∉ d.edges.map Edge.id
  plain : base ∉ d.edges.map Edge.id → id = base
  numbered : base ∈ d.edges.map Edge.id → ∃ n, 1 ≤ n ∧ id = base ++ "-" ++ toString n ∧
    ∀ m, 1 ≤ m → m < n → base ++ "-" ++ toString m ∈ d.edges.map Edge.id

variable {d : Diagram} {base : String}

/-- A search ends at one place, after one count of collisions. -/
theorem Seeks.unique {id found found' : String} {n k k' : Nat} (h : d.Seeks base id n k found)
    (h' : d.Seeks base id n k' found') : k = k' ∧ found = found' := by
  induction h generalizing k' with
  | free hfree =>
    cases h' with
    | free => exact ⟨rfl, rfl⟩
    | taken htaken => simp [hfree] at htaken
  | taken htaken _ ih =>
    cases h' with
    | free hfree => simp [hfree] at htaken
    | taken _ hrest =>
      obtain ⟨rfl, rfl⟩ := ih hrest
      exact ⟨rfl, rfl⟩

/-- A search goes on through the candidates that are taken, up to the one that is free. -/
theorem seeks_numberedId {n k : Nat} (hfree : d.hasEdge (numberedId base (n + k)) = false)
    (htaken : ∀ m < n + k, d.hasEdge (numberedId base m) = true) :
    d.Seeks base (numberedId base n) (n + 1) k (numberedId base (n + k)) := by
  induction k generalizing n with
  | zero => exact .free hfree
  | succ k ih =>
    have hnext : n + (k + 1) = n + 1 + k := by omega
    rw [hnext] at hfree htaken ⊢
    exact .taken (htaken n (by omega)) (ih hfree htaken)

/-- The search for an id ends at the id of a new edge, after at most as many collisions as there are
edges. -/
theorem exists_seeks_freeEdgeId (d : Diagram) (base : String) :
    ∃ k ≤ d.edges.length, d.Seeks base base 1 k (d.freeEdgeId base) := by
  obtain ⟨n, hn, hid, hfree, htaken⟩ := freeEdgeId_spec d base
  refine ⟨n, hn, ?_⟩
  rw [← Nat.zero_add n] at hfree htaken hid
  rw [hid]
  exact seeks_numberedId hfree htaken

theorem leastFree_freeEdgeId (d : Diagram) (base : String) :
    d.LeastFree base (d.freeEdgeId base) := by
  obtain ⟨n, -, hid, hfree, htaken⟩ := freeEdgeId_spec d base
  simp only [hasEdge_iff] at htaken
  cases n with
  | zero =>
    have hbase : base ∉ d.edges.map Edge.id := by
      rw [← hasEdge_iff, Bool.not_eq_true]
      exact hfree
    exact ⟨freeEdgeId_not_mem d base, fun _ => hid, fun hmem => absurd hmem hbase⟩
  | succ n =>
    have hbase : base ∈ d.edges.map Edge.id := htaken 0 (by omega)
    refine ⟨freeEdgeId_not_mem d base, fun hnot => absurd hbase hnot, fun _ => ?_⟩
    refine ⟨n + 1, by omega, hid, fun m hm hlt => ?_⟩
    cases m with
    | zero => omega
    | succ m => exact htaken (m + 1) hlt

end Diagram

/-- **A new edge gets the first free id of a search that ends.** A connection between columns that
are there is drawn in every session that shows a diagram, whatever edges this has. The search for
the id of the new edge ends, in one way only, after at most as many collisions as there are edges;
the id is the least free one; and the edge stands behind the others, under this id, between the
fields that the nodes were asked for. -/
theorem connect_seeks_id {s : Session} {d : Diagram} (hview : s.view = .compiled d) {c : Connection}
    (hsource : d.hasPort .source c.source c.sourceHandle = true)
    (htarget : d.hasPort .target c.target c.targetHandle = true) (millis : Nat) :
    let base := "e-" ++ c.source ++ "-" ++ c.target ++ "-" ++ toString millis
    ∃ id s', s.connect c millis = .ok (id, s') ∧
      (∃ collisions ≤ d.edges.length,
        ∀ k found, d.Seeks base base 1 k found ↔ k = collisions ∧ found = id) ∧
      d.LeastFree base id ∧
      ∃ e, s'.view = .compiled ⟨d.nodes, d.edges ++ [e]⟩ ∧ e.id = id ∧
        e.source = c.source ∧ e.sourceField = Side.source.field c.sourceHandle ∧
        e.target = c.target ∧ e.targetField = Side.target.field c.targetHandle ∧
        d.fits e = true := by
  intro base
  obtain ⟨collisions, hle, hseeks⟩ := d.exists_seeks_freeEdgeId base
  refine ⟨d.freeEdgeId base, _,
    Session.connect_eq_ok_iff.mpr ⟨d, hview, hsource, htarget, rfl, rfl⟩,
    ⟨collisions, hle, fun k found => ⟨fun h => h.unique hseeks, ?_⟩⟩,
    d.leastFree_freeEdgeId base, c.edge (d.freeEdgeId base), rfl, rfl, rfl,
    Side.field_handle _ _, rfl, Side.field_handle _ _, c.fits_edge hsource htarget _⟩
  rintro ⟨rfl, rfl⟩
  exact hseeks

/-- A diagram with two edges of one id, which is also the first candidate for a new edge, and with
an edge that has the second candidate. -/
theorem connect_seeks_id_crowded :
    let columns : List NodeColumn := [⟨"x", "int", none, none⟩, ⟨"source-x", "int", none, none⟩]
    let edge (id : String) : Edge := .between id "a-1" "x" "a-1" "x"
    let d : Diagram := ⟨[⟨"a-1", ⟨0, 0⟩, "a-1", columns⟩],
      [edge "e-a-1-a-1-5", edge "e-a-1-a-1-5", edge "e-a-1-a-1-5-1"]⟩
    let s : Session := { settings := {}, view := .compiled d }
    let c : Connection := ⟨"a-1", "source-source-x", "a-1", "x"⟩
    d.hasPort .source c.source c.sourceHandle = true ∧
    d.hasPort .target c.target c.targetHandle = true ∧
    ∃ s' e, s.connect c 5 = .ok ("e-a-1-a-1-5-2", s') ∧
      s'.view = .compiled ⟨d.nodes, d.edges ++ [e]⟩ ∧ e.id = "e-a-1-a-1-5-2" ∧
      e.sourceField = "source-x" ∧ e.targetField = "x" := by
  intro columns edge d s c
  have hsource : d.hasPort .source c.source c.sourceHandle = true := by decide +kernel
  have htarget : d.hasPort .target c.target c.targetHandle = true := by decide +kernel
  have hid : d.freeEdgeId (c.baseId 5) = "e-a-1-a-1-5-2" := by decide +kernel
  have hfields : Side.source.field c.sourceHandle = "source-x" ∧
      Side.target.field c.targetHandle = "x" := by
    decide +kernel
  obtain ⟨id, s', hok, -, -, e, hview, heid, -, hsourceField, -, htargetField, -⟩ :=
    connect_seeks_id (s := s) (d := d) rfl hsource htarget 5
  obtain ⟨d₀, hview₀, -, -, hid₀, -⟩ := Session.connect_eq_ok_iff.mp hok
  obtain rfl : d = d₀ := View.compiled.inj hview₀
  rw [hid] at hid₀
  subst hid₀
  exact ⟨hsource, htarget, s', e, hok, hview, heid, hsourceField.trans hfields.1,
    htargetField.trans hfields.2⟩

end SchemaGraph
