import SchemaGraph.Proofs.Ports
import SchemaGraph.Session.InPlace

/-!
# Edits that fail

A change by hand that is made in place (`InPlace`) could end half done: the deletions change the
diagram before they know whether there is anything to delete. It never does. Made in place, an edit
comes to what it comes to as a whole (`InPlace.perform_run`): it succeeds with the same session, or
fails with the same error and leaves the session as it was. The deletions owe this to their test,
as a list is as long as before only when nothing is gone from it (`length_filter_ne_eq_iff`). What
makes a change fail is said by the diagram that is shown (`Session.move_eq_error_iff` and those
beside it).
-/

namespace SchemaGraph

/-- A list loses in length when something in it has the key that is dropped. -/
theorem length_filter_ne_eq_iff {α : Type} {key : α → String} {id : String} {xs : List α} :
    (xs.filter (key · != id)).length = xs.length ↔ id ∉ xs.map key := by
  rw [List.length_filter_eq_length_iff, List.mem_map]
  constructor
  · rintro hall ⟨x, hx, rfl⟩
    simpa using hall x hx
  · intro hid x hx
    simpa using fun hkey => hid ⟨x, hx, hkey⟩

theorem filter_ne_eq_self {α : Type} {key : α → String} {id : String} {xs : List α}
    (h : id ∉ xs.map key) : xs.filter (key · != id) = xs :=
  List.filter_eq_self.mpr (List.length_filter_eq_length_iff.mp (length_filter_ne_eq_iff.mpr h))

/-! ### Why a change fails -/

namespace Diagram

variable {d : Diagram} {side : Side} {node handle : String}

/-- **What is wrong with an end of a connection**: there is no such node, or the node shows no
column for the handle. -/
inductive EndFault (d : Diagram) (side : Side) (node handle : String) : EditError → Prop
  | node (hnode : node ∉ d.nodes.map Node.id) : EndFault d side node handle (.unknownNode node)
  | port (hnode : node ∈ d.nodes.map Node.id)
    (hport : ¬ d.ShowsColumn node (side.field handle)) :
    EndFault d side node handle (.unknownPort node handle)

theorem checkPort_eq_error_iff (hdistinct : (d.nodes.map Node.id).Nodup) {e : EditError} :
    d.checkPort side node handle = .error e ↔ d.EndFault side node handle e := by
  rw [checkPort]
  cases hn : d.node? node with
  | none =>
    have hnode := node?_eq_none_iff.mp hn
    constructor
    · intro h
      cases h
      exact .node hnode
    · rintro (_ | ⟨hmem, -⟩)
      · rfl
      · exact absurd hmem hnode
  | some n =>
    obtain ⟨hmem, rfl⟩ := (node?_eq_some_iff hdistinct).mp hn
    have hnode : n.id ∈ d.nodes.map Node.id := List.mem_map_of_mem hmem
    have hshows : n.hasColumn (side.field handle) = true ↔
        d.ShowsColumn n.id (side.field handle) := by
      rw [← hasPort_iff_showsColumn hdistinct, hasPort_iff, hn]
      simp
    constructor
    · intro h
      dsimp only at h
      split_ifs at h with hcolumn
      cases h
      exact .port hnode (mt hshows.mpr hcolumn)
    · rintro (hnot | ⟨-, hport⟩)
      · exact absurd hnode hnot
      · exact if_neg (mt hshows.mp hport)

end Diagram

namespace Session

variable {s s' : Session} {d : Diagram}

theorem diagram_of_not_compiled (h : ∀ d, s.view ≠ .compiled d) :
    s.diagram = .error .notCompiled := by
  unfold diagram
  cases hview : s.view with
  | compiled d => exact absurd hview (h d)
  | empty => rfl
  | failed message => rfl

theorem move_eq_error_iff (h : s.view = .compiled d) {id : String} {position : Position}
    {e : EditError} :
    s.move id position = .error e ↔ id ∉ d.nodes.map Node.id ∧ e = .unknownNode id := by
  rw [move, diagram_eq_ok_iff.mpr h, ← Diagram.hasNode_iff]
  exact ite_pure_throw_eq_error_iff

theorem deleteNode_eq_error_iff (h : s.view = .compiled d) {id : String} {e : EditError} :
    s.deleteNode id = .error e ↔ id ∉ d.nodes.map Node.id ∧ e = .unknownNode id := by
  rw [deleteNode, diagram_eq_ok_iff.mpr h, ← Diagram.hasNode_iff]
  exact ite_pure_throw_eq_error_iff

theorem deleteEdge_eq_error_iff (h : s.view = .compiled d) {id : String} {e : EditError} :
    s.deleteEdge id = .error e ↔ id ∉ d.edges.map Edge.id ∧ e = .unknownEdge id := by
  rw [deleteEdge, diagram_eq_ok_iff.mpr h, ← Diagram.hasEdge_iff]
  exact ite_pure_throw_eq_error_iff

/-- The target of a connection is looked at when there is nothing wrong with its source. -/
theorem connect_eq_error_iff (h : s.view = .compiled d) (hdistinct : (d.nodes.map Node.id).Nodup)
    {c : Connection} {millis : Nat} {e : EditError} :
    s.connect c millis = .error e ↔ d.EndFault .source c.source c.sourceHandle e ∨
      d.ShowsColumn c.source (Side.source.field c.sourceHandle) ∧
        d.EndFault .target c.target c.targetHandle e := by
  have hsource : (∃ u, d.checkPort .source c.source c.sourceHandle = .ok u) ↔
      d.ShowsColumn c.source (Side.source.field c.sourceHandle) := by
    simp only [Diagram.checkPort_eq_ok_iff, ← Diagram.hasPort_iff,
      d.hasPort_iff_showsColumn hdistinct, exists_const]
  simp only [connect, diagram_eq_ok_iff.mpr h, bind_eq_error_iff, reduceCtorEq, false_or,
    Except.ok.injEq, exists_eq_left', Diagram.checkPort_eq_error_iff hdistinct, exists_and_right,
    hsource, pure, Except.pure, and_false, exists_false, or_false]

/-- A change by hand fails for want of a diagram when none is shown. -/
theorem perform_eq_notCompiled_iff (hs : s.Sound) {edit : Edit}
    (hedit : ∀ text, edit ≠ .update text) :
    s.perform edit = .error .notCompiled ↔ ∀ d, s.view ≠ .compiled d := by
  constructor
  · intro h d hview
    cases edit with
    | update text => cases h
    | move id position => cases ((move_eq_error_iff hview).mp h).2
    | deleteNode id => cases ((deleteNode_eq_error_iff hview).mp h).2
    | deleteEdge id => cases ((deleteEdge_eq_error_iff hview).mp h).2
    | connect c millis =>
      rw [perform, map_eq_error_iff, connect_eq_error_iff hview (hs d hview).nodes_distinct] at h
      rcases h with hfault | ⟨-, hfault⟩ <;> cases hfault
  · intro h
    have hdiagram := diagram_of_not_compiled h
    cases edit with
    | update text => exact absurd rfl (hedit text)
    | move id position => rw [perform, move, hdiagram]; rfl
    | connect c millis => rw [perform, connect, hdiagram]; rfl
    | deleteNode id => rw [perform, deleteNode, hdiagram]; rfl
    | deleteEdge id => rw [perform, deleteEdge, hdiagram]; rfl

end Session

/-! ### In place and as a whole -/

namespace InPlace

variable {α β : Type} {s s' : Session} {d : Diagram}

theorem run_bind_of_ok {change : InPlace α} {next : α → InPlace β} {a : α}
    (h : change.run s = .ok a s') : (change >>= next).run s = (next a).run s' := by
  show EStateM.bind change next s = next a s'
  rw [EStateM.bind, show change s = .ok a s' from h]

theorem run_bind_of_error {change : InPlace α} {next : α → InPlace β} {e : EditError}
    (h : change.run s = .error e s') : (change >>= next).run s = .error e s' := by
  show EStateM.bind change next s = .error e s'
  rw [EStateM.bind, show change s = .error e s' from h]

theorem run_put (d : Diagram) (s : Session) :
    (put d).run s = .ok () { s with view := .compiled d } :=
  rfl

/-- Showing the diagram that is shown changes nothing. -/
theorem run_put_of_shown (h : s.view = .compiled d) : (put d).run s = .ok () s := by
  rw [run_put, ← h]

theorem run_refuse_of_true {isSo : Bool} (h : isSo = true) (e : EditError) (s : Session) :
    (refuse isSo e).run s = .error e s := by
  rw [refuse, if_pos h]
  rfl

theorem run_refuse_of_false {isSo : Bool} (h : isSo = false) (e : EditError) (s : Session) :
    (refuse isSo e).run s = .ok () s := by
  rw [refuse, if_neg (by simp [h])]
  rfl

/-- What a change that is made as a whole comes to: where it fails, the session is as before. -/
def asWhole (s : Session) : Except EditError (α × Session) → EStateM.Result EditError Session α
  | .ok (a, s') => .ok a s'
  | .error e => .error e s

/-- A step that fails only without a change goes on as a whole change does. -/
theorem run_requirePort_bind {side : Side} {node handle : String} {next : Unit → InPlace α}
    {f : Unit → Except EditError (α × Session)} (h : (next ()).run s = asWhole s (f ())) :
    (requirePort d side node handle >>= next).run s =
      asWhole s (d.checkPort side node handle >>= f) := by
  cases hcheck : d.checkPort side node handle with
  | ok u =>
    have hstep : (requirePort d side node handle).run s = .ok () s := by
      rw [requirePort, hcheck]
      rfl
    rw [run_bind_of_ok hstep, h]
    rfl
  | error e =>
    have hstep : (requirePort d side node handle).run s = .error e s := by
      rw [requirePort, hcheck]
      rfl
    rw [run_bind_of_error hstep]
    rfl

/-- A change that begins with the diagram that is shown. -/
theorem run_shown_bind {next : Diagram → InPlace α} {f : Diagram → Except EditError β}
    {result : β → α × Session}
    (h : ∀ d, s.view = .compiled d → (next d).run s = asWhole s ((f d).map result)) :
    (shown >>= next).run s = asWhole s ((s.diagram >>= f).map result) := by
  by_cases hcompiled : ∃ d, s.view = .compiled d
  · obtain ⟨d, hview⟩ := hcompiled
    have hstep : shown.run s = .ok d s := by
      obtain ⟨settings, text, view, catalog, diagnostics, warnings, moved, drawn⟩ := s
      cases hview
      rfl
    rw [run_bind_of_ok hstep, h d hview, Session.diagram_eq_ok_iff.mpr hview]
    rfl
  · have hnone := not_exists.mp hcompiled
    have hstep : shown.run s = .error .notCompiled s := by
      obtain ⟨settings, text, view, catalog, diagnostics, warnings, moved, drawn⟩ := s
      cases view with
      | compiled d => exact absurd rfl (hnone d)
      | empty => rfl
      | failed message => rfl
    rw [run_bind_of_error hstep, Session.diagram_of_not_compiled hnone]
    rfl

theorem move_run (s : Session) (id : String) (position : Position) :
    (move id position).run s = asWhole s ((s.move id position).map ((), ·)) := by
  refine run_shown_bind fun d hview => ?_
  cases hn : d.node? id with
  | none =>
    have hid := Diagram.node?_eq_none_iff.mp hn
    rw [if_neg (mt Diagram.hasNode_iff.mp hid)]
    rfl
  | some n =>
    have hid : id ∈ d.nodes.map Node.id := by
      by_contra hnot
      rw [Diagram.node?_eq_none_iff.mpr hnot] at hn
      cases hn
    rw [if_pos (Diagram.hasNode_iff.mpr hid)]
    rfl

theorem connect_run (s : Session) (c : Connection) (millis : Nat) :
    (connect c millis).run s = asWhole s (s.connect c millis) := by
  rw [← id_eq (s.connect c millis), ← Except.map_id]
  refine run_shown_bind fun d hview => ?_
  rw [Except.map_id, id_eq]
  exact run_requirePort_bind (run_requirePort_bind rfl)

theorem deleteNode_run (s : Session) (id : String) :
    (deleteNode id).run s = asWhole s ((s.deleteNode id).map ((), ·)) := by
  refine run_shown_bind fun d hview => ?_
  by_cases hid : id ∈ d.nodes.map Node.id
  · have hshorter := mt length_filter_ne_eq_iff.mp (not_not.mpr hid)
    rw [if_pos (Diagram.hasNode_iff.mpr hid), run_bind_of_ok (run_put _ _),
      run_bind_of_ok (run_refuse_of_false (by simpa using hshorter) _ _)]
    rfl
  · have hsame := length_filter_ne_eq_iff.mpr hid
    rw [if_neg (mt Diagram.hasNode_iff.mp hid), filter_ne_eq_self hid,
      run_bind_of_ok (run_put_of_shown hview), run_bind_of_error (run_refuse_of_true (by simp) _ _)]
    rfl

theorem deleteEdge_run (s : Session) (id : String) :
    (deleteEdge id).run s = asWhole s ((s.deleteEdge id).map ((), ·)) := by
  refine run_shown_bind fun d hview => ?_
  by_cases hid : id ∈ d.edges.map Edge.id
  · have hshorter := mt length_filter_ne_eq_iff.mp (not_not.mpr hid)
    rw [if_pos (Diagram.hasEdge_iff.mpr hid), run_bind_of_ok (run_put _ _),
      run_bind_of_ok (run_refuse_of_false (by simpa using hshorter) _ _)]
    rfl
  · rw [if_neg (mt Diagram.hasEdge_iff.mp hid), filter_ne_eq_self hid,
      run_bind_of_ok (run_put_of_shown hview), run_bind_of_error (run_refuse_of_true (by simp) _ _)]
    rfl

/-- **An edit that is made in place comes to what it comes to as a whole.** -/
theorem perform_run (s : Session) (edit : Edit) :
    (perform edit).run s = asWhole s ((s.perform edit).map ((), ·)) := by
  cases edit with
  | update text => rfl
  | move id position => exact move_run s id position
  | connect c millis =>
    have hconnect := connect_run s c millis
    rw [Session.perform]
    cases h : s.connect c millis with
    | ok result =>
      rw [h] at hconnect
      exact run_bind_of_ok hconnect
    | error e =>
      rw [h] at hconnect
      exact run_bind_of_error hconnect
  | deleteNode id => exact deleteNode_run s id
  | deleteEdge id => exact deleteEdge_run s id

end InPlace

/-- **Edits that fail leave no trace.** In every session that can be reached, an edit that is made
in place either succeeds, or leaves the whole session as it was. A change by hand fails for want of
a diagram exactly when none is shown. Of a diagram that is shown, a node cannot be moved or deleted,
or an edge deleted, exactly when there is none with the id. A connection cannot be drawn exactly
when something is wrong with one of its ends, and the source is reported before the target. -/
theorem failed_edits_leave_no_trace (settings : SessionSettings) (edits : List Edit) :
    let s := (Session.start settings).run edits
    (∀ edit,
      (∃ s', s.perform edit = .ok s' ∧ (InPlace.perform edit).run s = .ok () s') ∨
      ∃ e, s.perform edit = .error e ∧ (InPlace.perform edit).run s = .error e s) ∧
    (∀ edit : Edit, (∀ text, edit ≠ .update text) →
      (s.perform edit = .error .notCompiled ↔ ∀ d, s.view ≠ .compiled d)) ∧
    ∀ d, s.view = .compiled d →
      (∀ id position e, s.move id position = .error e ↔
        id ∉ d.nodes.map Node.id ∧ e = .unknownNode id) ∧
      (∀ id e, s.deleteNode id = .error e ↔ id ∉ d.nodes.map Node.id ∧ e = .unknownNode id) ∧
      (∀ id e, s.deleteEdge id = .error e ↔ id ∉ d.edges.map Edge.id ∧ e = .unknownEdge id) ∧
      ∀ (c : Connection) millis e, s.connect c millis = .error e ↔
        d.EndFault .source c.source c.sourceHandle e ∨
          d.ShowsColumn c.source (Side.source.field c.sourceHandle) ∧
            d.EndFault .target c.target c.targetHandle e := by
  intro s
  refine ⟨fun edit => ?_, fun edit hedit => ?_, fun d hview => ?_⟩
  · have hrun := InPlace.perform_run s edit
    cases hperform : s.perform edit with
    | ok s' =>
      rw [hperform] at hrun
      exact .inl ⟨s', rfl, hrun⟩
    | error e =>
      rw [hperform] at hrun
      exact .inr ⟨e, rfl, hrun⟩
  · exact Session.perform_eq_notCompiled_iff (Session.sound_run settings edits) hedit
  · have hdistinct := (Session.sound_run settings edits d hview).nodes_distinct
    exact ⟨fun _ _ _ => Session.move_eq_error_iff hview,
      fun _ _ => Session.deleteNode_eq_error_iff hview,
      fun _ _ => Session.deleteEdge_eq_error_iff hview,
      fun _ _ _ => Session.connect_eq_error_iff hview hdistinct⟩

end SchemaGraph
