import SchemaGraph.Proofs.FailedEdits

/-!
# What a change by hand changes

Changes by hand go by ids and by tests over the whole diagram. The first node with an id is put
elsewhere; all nodes with an id, or all edges with one, are deleted; and when nodes are deleted, all
edges that lack a node go with them, whichever node it is. A change names one thing, however: one
node, or one edge (`Diagram.Becomes`). In a sound diagram there is only this one thing with the id,
and no edge lacked a node before, so that a change by hand changes just what it names and leaves all
else as it is, in its order (`changes_by_hand`). What a session holds of its text stays as it is,
too.
-/

namespace SchemaGraph

/-! ### Lists with different keys -/

section Keys

variable {α : Type} {key : α → String} {before after : List α} {x : α}

/-- Among items with different keys, the key of one is the key of no other. -/
theorem key_not_mem_of_nodup (hdistinct : ((before ++ x :: after).map key).Nodup) :
    key x ∉ before.map key ∧ key x ∉ after.map key := by
  rw [List.map_append, List.map_cons, List.nodup_middle, List.nodup_cons, List.mem_append,
    not_or] at hdistinct
  exact hdistinct.1

/-- So dropping a key drops one item. -/
theorem filter_ne_append_cons (hdistinct : ((before ++ x :: after).map key).Nodup) :
    (before ++ x :: after).filter (key · != key x) = before ++ after := by
  obtain ⟨hbefore, hafter⟩ := key_not_mem_of_nodup hdistinct
  rw [List.filter_append, List.filter_cons_of_neg (by simp), filter_ne_eq_self hbefore,
    filter_ne_eq_self hafter]

end Keys

/-! ### Diagrams -/

/-- **What becomes of a diagram** by a change by hand: one node stands elsewhere, one edge is drawn
behind the others, one node is gone and with it the edges that end at it, or one edge is gone. -/
inductive Diagram.Becomes (d : Diagram) : Edit → Diagram → Prop
  | moved {before after : List Node} {n : Node} (hnodes : d.nodes = before ++ n :: after)
      (position : Position) :
      d.Becomes (.move n.id position) ⟨before ++ { n with position } :: after, d.edges⟩
  | connected {c : Connection} (hsource : d.hasPort .source c.source c.sourceHandle = true)
      (htarget : d.hasPort .target c.target c.targetHandle = true) (millis : Nat) :
      d.Becomes (.connect c millis)
        ⟨d.nodes, d.edges ++ [c.edge (d.freeEdgeId (c.baseId millis))]⟩
  | nodeDeleted {before after : List Node} {n : Node} (hnodes : d.nodes = before ++ n :: after) :
      d.Becomes (.deleteNode n.id)
        ⟨before ++ after, d.edges.filter fun e => e.source ≠ n.id ∧ e.target ≠ n.id⟩
  | edgeDeleted {before after : List Edge} {e : Edge} (hedges : d.edges = before ++ e :: after) :
      d.Becomes (.deleteEdge e.id) ⟨d.nodes, before ++ after⟩

namespace Diagram

variable {d d' : Diagram} {id : String}

/-- The first node with an id is the one that no other node with this id stands before. -/
theorem placeNode_append_cons {before after : List Node} {n : Node} {position : Position}
    (hbefore : n.id ∉ before.map Node.id) :
    placeNode n.id position (before ++ n :: after) =
      before ++ { n with position } :: after := by
  induction before with
  | nil => rw [List.nil_append, List.nil_append, placeNode, if_pos rfl]
  | cons first before ih =>
    rw [List.map_cons, List.mem_cons, not_or] at hbefore
    rw [List.cons_append, placeNode, if_neg (Ne.symm hbefore.1), ih hbefore.2, List.cons_append]

/-- An edge of a sound diagram is left without an end when it ends at the node that is removed. -/
theorem Sound.edges_removeNode (h : d.Sound) (id : String) :
    (d.removeNode id).edges = d.edges.filter fun e => e.source ≠ id ∧ e.target ≠ id := by
  have hleft : ∀ node, node ∈ (d.nodes.filter (·.id != id)).map Node.id ↔
      node ∈ d.nodes.map Node.id ∧ node ≠ id := by
    intro node
    simp only [List.mem_map, List.mem_filter, bne_iff_ne]
    constructor
    · rintro ⟨n, ⟨hn, hne⟩, rfl⟩
      exact ⟨⟨n, hn, rfl⟩, hne⟩
    · rintro ⟨⟨n, hn, rfl⟩, hne⟩
      exact ⟨n, ⟨hn, hne⟩, rfl⟩
  rw [Diagram.removeNode, prune]
  refine List.filter_congr fun e he => ?_
  obtain ⟨hsource, htarget⟩ := h.anchored e he
  rw [Bool.eq_iff_iff, carries_iff, hleft, hleft, decide_eq_true_iff]
  simp only [hsource, htarget, true_and]

theorem Sound.becomes_move_iff (h : d.Sound) {position : Position} :
    d.Becomes (.move id position) d' ↔ d.hasNode id = true ∧ d' = d.place id position := by
  have hplaced : ∀ {before after : List Node} {n : Node}, d.nodes = before ++ n :: after →
      d.place n.id position = ⟨before ++ { n with position } :: after, d.edges⟩ := by
    intro before after n hnodes
    have hbefore := (key_not_mem_of_nodup (hnodes ▸ h.nodes_distinct)).1
    rw [Diagram.place, hnodes, placeNode_append_cons hbefore]
  rw [hasNode_iff]
  constructor
  · rintro (⟨hnodes, _⟩ | _)
    exact ⟨by simp [hnodes], (hplaced hnodes).symm⟩
  · rintro ⟨hid, rfl⟩
    obtain ⟨n, hn, rfl⟩ := List.mem_map.mp hid
    obtain ⟨before, after, hnodes⟩ := List.append_of_mem hn
    rw [hplaced hnodes]
    exact .moved hnodes position

theorem becomes_connect_iff {c : Connection} {millis : Nat} :
    d.Becomes (.connect c millis) d' ↔ d.hasPort .source c.source c.sourceHandle = true ∧
      d.hasPort .target c.target c.targetHandle = true ∧
      d' = d.addEdge (c.edge (d.freeEdgeId (c.baseId millis))) := by
  constructor
  · rintro (_ | ⟨hsource, htarget, _⟩)
    exact ⟨hsource, htarget, rfl⟩
  · rintro ⟨hsource, htarget, rfl⟩
    exact .connected hsource htarget millis

theorem Sound.becomes_deleteNode_iff (h : d.Sound) :
    d.Becomes (.deleteNode id) d' ↔ d.hasNode id = true ∧ d' = d.removeNode id := by
  have hremoved : ∀ {before after : List Node} {n : Node}, d.nodes = before ++ n :: after →
      d.removeNode n.id =
        ⟨before ++ after, d.edges.filter fun e => e.source ≠ n.id ∧ e.target ≠ n.id⟩ := by
    intro before after n hnodes
    have hleft : d.nodes.filter (·.id != n.id) = before ++ after := by
      rw [hnodes]
      exact filter_ne_append_cons (hnodes ▸ h.nodes_distinct)
    rw [← h.edges_removeNode, ← hleft]
    rfl
  rw [hasNode_iff]
  constructor
  · rintro (_ | _ | hnodes)
    exact ⟨by simp [hnodes], (hremoved hnodes).symm⟩
  · rintro ⟨hid, rfl⟩
    obtain ⟨n, hn, rfl⟩ := List.mem_map.mp hid
    obtain ⟨before, after, hnodes⟩ := List.append_of_mem hn
    rw [hremoved hnodes]
    exact .nodeDeleted hnodes

theorem Sound.becomes_deleteEdge_iff (h : d.Sound) :
    d.Becomes (.deleteEdge id) d' ↔ d.hasEdge id = true ∧ d' = d.removeEdge id := by
  have hremoved : ∀ {before after : List Edge} {e : Edge}, d.edges = before ++ e :: after →
      d.removeEdge e.id = ⟨d.nodes, before ++ after⟩ := by
    intro before after e hedges
    rw [Diagram.removeEdge, hedges, filter_ne_append_cons (hedges ▸ h.edges_distinct)]
  rw [hasEdge_iff]
  constructor
  · rintro (_ | _ | _ | hedges)
    exact ⟨by simp [hedges], (hremoved hedges).symm⟩
  · rintro ⟨hid, rfl⟩
    obtain ⟨e, he, rfl⟩ := List.mem_map.mp hid
    obtain ⟨before, after, hedges⟩ := List.append_of_mem he
    rw [hremoved hedges]
    exact .edgeDeleted hedges

end Diagram

/-! ### Sessions -/

namespace Session

/-- **Two sessions hold the same text** and the same settings, and beside the diagram the same of
what is made of the text. -/
structure SameText (s s' : Session) : Prop where
  text : s'.text = s.text
  settings : s'.settings = s.settings
  catalog : s'.catalog = s.catalog
  diagnostics : s'.diagnostics = s.diagnostics
  warnings : s'.warnings = s.warnings

variable {s s' : Session} {d d' : Diagram} {edit : Edit}

/-- A change by hand that succeeds shows what becomes of the diagram, and keeps the text. -/
theorem becomes_of_perform (hs : s.Sound) (hview : s.view = .compiled d)
    (hedit : ∀ text, edit ≠ .update text) (h : s.perform edit = .ok s') :
    ∃ d', s'.view = .compiled d' ∧ d.Becomes edit d' ∧ s.SameText s' := by
  have hd := hs d hview
  cases edit with
  | update text => exact absurd rfl (hedit text)
  | move id position =>
    obtain ⟨d₀, hview₀, hid, rfl⟩ := move_eq_ok_iff.mp h
    obtain rfl : d = d₀ := View.compiled.inj (hview.symm.trans hview₀)
    exact ⟨_, rfl, hd.becomes_move_iff.mpr ⟨hid, rfl⟩, rfl, rfl, rfl, rfl, rfl⟩
  | connect c millis =>
    obtain ⟨id, h⟩ := perform_connect_eq_ok_iff.mp h
    obtain ⟨d₀, hview₀, hsource, htarget, rfl, rfl⟩ := connect_eq_ok_iff.mp h
    obtain rfl : d = d₀ := View.compiled.inj (hview.symm.trans hview₀)
    exact ⟨_, rfl, Diagram.becomes_connect_iff.mpr ⟨hsource, htarget, rfl⟩, rfl, rfl, rfl, rfl, rfl⟩
  | deleteNode id =>
    obtain ⟨d₀, hview₀, hid, rfl⟩ := deleteNode_eq_ok_iff.mp h
    obtain rfl : d = d₀ := View.compiled.inj (hview.symm.trans hview₀)
    exact ⟨_, rfl, hd.becomes_deleteNode_iff.mpr ⟨hid, rfl⟩, rfl, rfl, rfl, rfl, rfl⟩
  | deleteEdge id =>
    obtain ⟨d₀, hview₀, hid, rfl⟩ := deleteEdge_eq_ok_iff.mp h
    obtain rfl : d = d₀ := View.compiled.inj (hview.symm.trans hview₀)
    exact ⟨_, rfl, hd.becomes_deleteEdge_iff.mpr ⟨hid, rfl⟩, rfl, rfl, rfl, rfl, rfl⟩

/-- What can become of a diagram by a change by hand does become of it. -/
theorem exists_perform_of_becomes (hs : s.Sound) (hview : s.view = .compiled d)
    (h : d.Becomes edit d') : ∃ s', s.perform edit = .ok s' ∧ s'.view = .compiled d' := by
  have hd := hs d hview
  cases edit with
  | update text => cases h
  | move id position =>
    obtain ⟨hid, rfl⟩ := hd.becomes_move_iff.mp h
    exact ⟨_, move_eq_ok_iff.mpr ⟨d, hview, hid, rfl⟩, rfl⟩
  | connect c millis =>
    obtain ⟨hsource, htarget, rfl⟩ := Diagram.becomes_connect_iff.mp h
    exact ⟨_, perform_connect_eq_ok_iff.mpr
      ⟨_, connect_eq_ok_iff.mpr ⟨d, hview, hsource, htarget, rfl, rfl⟩⟩, rfl⟩
  | deleteNode id =>
    obtain ⟨hid, rfl⟩ := hd.becomes_deleteNode_iff.mp h
    exact ⟨_, deleteNode_eq_ok_iff.mpr ⟨d, hview, hid, rfl⟩, rfl⟩
  | deleteEdge id =>
    obtain ⟨hid, rfl⟩ := hd.becomes_deleteEdge_iff.mp h
    exact ⟨_, deleteEdge_eq_ok_iff.mpr ⟨d, hview, hid, rfl⟩, rfl⟩

end Session

/-- **A change by hand changes exactly what it names.** In every session that can be reached, a
change by hand that succeeds shows what becomes of the diagram by this change, and keeps the text
and what is made of it; and whatever can become of the diagram by the change does. -/
theorem changes_by_hand (settings : SessionSettings) (edits : List Edit) {d : Diagram}
    (h : ((Session.start settings).run edits).view = .compiled d) {edit : Edit}
    (hedit : ∀ text, edit ≠ .update text) :
    let s := (Session.start settings).run edits
    (∀ s', s.perform edit = .ok s' →
      ∃ d', s'.view = .compiled d' ∧ d.Becomes edit d' ∧ s.SameText s') ∧
    ∀ d', d.Becomes edit d' → ∃ s', s.perform edit = .ok s' ∧ s'.view = .compiled d' := by
  intro s
  have hs := Session.sound_run settings edits
  exact ⟨fun _ => Session.becomes_of_perform hs h hedit,
    fun _ => Session.exists_perform_of_becomes hs h⟩

/-- Of three tables in a row the middle one is deleted. A compiled edge goes with it and so does one
that was drawn, and the edge that was drawn from end to end stays. -/
theorem changes_by_hand_middle :
    let tables := "Table a{x i}\nTable b{x i}\nTable c{x i}\nRef: a.x > b.x"
    let between (source target : String) : Connection := ⟨source, "source-x", target, "target-x"⟩
    let edits : List Edit := [.update tables, .connect (between "public.b" "public.c") 1,
      .connect (between "public.a" "public.c") 2]
    ∃ d d', ((Session.start {}).run edits).view = .compiled d ∧
      d.edges.map Edge.id =
        ["e-public.a-public.b-0-0", "e-public.b-public.c-1", "e-public.a-public.c-2"] ∧
      d.Becomes (.deleteNode "public.b") d' ∧
      d'.nodes.map Node.id = ["public.a", "public.c"] ∧
      d'.edges.map Edge.id = ["e-public.a-public.c-2"] := by
  intro tables between edits
  have heval : ((Session.start {}).run edits).view.diagram?.map (·.edges.map Edge.id) =
      some ["e-public.a-public.b-0-0", "e-public.b-public.c-1", "e-public.a-public.c-2"] := by
    decide +kernel
  have hdeleted : (((Session.start {}).run edits).perform (.deleteNode "public.b")).toOption.map
      (fun s' => s'.view.diagram?.map fun d' => (d'.nodes.map Node.id, d'.edges.map Edge.id)) =
        some (some (["public.a", "public.c"], ["e-public.a-public.c-2"])) := by
    decide +kernel
  obtain ⟨d, hview, hids⟩ := Session.exists_view_of_map_diagram? heval
  obtain ⟨s', hok, hshown⟩ := exists_ok_of_map_toOption hdeleted
  have hedit : ∀ text, Edit.deleteNode "public.b" ≠ .update text := by
    intro text htext
    cases htext
  obtain ⟨d', hview', hbecomes, -⟩ := (changes_by_hand {} edits hview hedit).1 s' hok
  rw [hview'] at hshown
  obtain ⟨hnodes, hedges⟩ := Prod.mk.inj (Option.some.inj hshown)
  exact ⟨d, d', hview, hids, hbecomes, hnodes, hedges⟩

end SchemaGraph
