import SchemaGraph.Proofs.Redrawing

/-!
# Which drawn edges a session remembers

The edges that a session remembers are a matter of its history: those that the user drew and that
nothing has made it forget since (`Session.remembers`). A session forgets an edge when an edge with
its id is deleted, when a node at which it ends is deleted, and, unless it retains changes by hand,
when it gets a new text. The history is told here without looking into the session for what it has
stored; `Session.drawn_run` says that the two agree. With that, the edges of a diagram that is shown
after a new text are told by the text and the history (`Session.mem_edges_update_iff`).
-/

namespace SchemaGraph

namespace Session

variable {s s' : Session} {e : Edge}

/-! ### The history of drawn edges -/

/-- The edge that an edit draws. -/
def drawnBy (s : Session) : Edit → Option Edge
  | .connect c millis =>
    match s.connect c millis with
    | .ok (id, _) => some (c.edge id)
    | .error _ => none
  | _ => none

/-- Whether an edit makes a session forget a drawn edge. -/
def forgets (s : Session) (e : Edge) : Edit → Bool
  | .update _ => !s.settings.retainsEdits
  | .deleteNode id => (s.deleteNode id).toBool && e.touches id
  | .deleteEdge id => (s.deleteEdge id).toBool && e.id == id
  | .move .. | .connect .. => false

/-- Whether a drawn edge outlives a run. -/
def keeps (s : Session) (e : Edge) : List Edit → Bool
  | [] => true
  | edit :: later => !s.forgets e edit && (s.after edit).keeps e later

/-- **The edges that are drawn in a run and outlive the rest of it**, in the order in which they are
drawn. -/
def remembers (s : Session) : List Edit → List Edge
  | [] => []
  | edit :: later =>
    (s.drawnBy edit).toList.filter ((s.after edit).keeps · later) ++ (s.after edit).remembers later

/-- An edge outlives a run when no edit of the run makes the session forget it. -/
theorem keeps_iff {edits : List Edit} : s.keeps e edits = true ↔
    ∀ xs edit ys, edits = xs ++ edit :: ys → (s.run xs).forgets e edit = false := by
  induction edits generalizing s with
  | nil => simp [keeps]
  | cons edit edits ih =>
    rw [keeps, Bool.and_eq_true, Bool.not_eq_true', ih]
    constructor
    · rintro ⟨hfirst, hrest⟩ xs edit' ys hsplit
      cases xs with
      | nil =>
        obtain ⟨rfl, rfl⟩ := List.cons.inj hsplit
        exact hfirst
      | cons x xs =>
        obtain ⟨rfl, rfl⟩ := List.cons.inj hsplit
        exact hrest xs edit' ys rfl
    · intro h
      refine ⟨h [] edit edits rfl, fun xs edit' ys hsplit => ?_⟩
      exact h (edit :: xs) edit' ys (by rw [hsplit]; rfl)

theorem keeps_append (xs ys : List Edit) :
    s.keeps e (xs ++ ys) = (s.keeps e xs && (s.run xs).keeps e ys) := by
  induction xs generalizing s with
  | nil => rfl
  | cons x xs ih =>
    rw [List.cons_append, keeps, keeps, ih, Bool.and_assoc]
    rfl

theorem remembers_append (s : Session) (xs ys : List Edit) : s.remembers (xs ++ ys) =
    (s.remembers xs).filter ((s.run xs).keeps · ys) ++ (s.run xs).remembers ys := by
  induction xs generalizing s with
  | nil => rfl
  | cons x xs ih =>
    rw [List.cons_append, remembers, remembers, ih, List.filter_append, List.append_assoc,
      List.filter_filter]
    simp only [keeps_append, Bool.and_comm]
    rfl

/-! ### The history and the session -/

theorem after_of_ok {edit : Edit} (h : s.perform edit = .ok s') : s.after edit = s' := by
  rw [after, h]

theorem after_of_error {edit : Edit} {x : EditError} (h : s.perform edit = .error x) :
    s.after edit = s := by
  rw [after, h]

/-- An edit that fails makes a session forget nothing. -/
theorem forgets_of_error {edit : Edit} {x : EditError} (h : s.perform edit = .error x) (e : Edge) :
    s.forgets e edit = false := by
  cases edit with
  | update text => cases h
  | move id position => rfl
  | connect c millis => rfl
  | deleteNode id =>
    have h : s.deleteNode id = .error x := h
    rw [forgets, h]
    rfl
  | deleteEdge id =>
    have h : s.deleteEdge id = .error x := h
    rw [forgets, h]
    rfl

/-- An edit that fails draws nothing. -/
theorem drawnBy_of_error {edit : Edit} {x : EditError} (h : s.perform edit = .error x) :
    s.drawnBy edit = none := by
  cases edit with
  | connect c millis =>
    cases hc : s.connect c millis with
    | error y => rw [drawnBy, hc]
    | ok result =>
      rw [perform, hc] at h
      cases h
  | _ => rfl

/-- What one edit does to the edges that a session has stored. -/
theorem drawn_after (s : Session) (edit : Edit) : (s.after edit).drawn =
    s.drawn.filter (!s.forgets · edit) ++ (s.drawnBy edit).toList := by
  cases h : s.perform edit with
  | error x => simp [after_of_error h, forgets_of_error h, drawnBy_of_error h]
  | ok s' =>
    rw [after_of_ok h]
    cases edit with
    | update text =>
      cases h
      have hupdate : (s.update text).drawn = s.forgetEdits.drawn := by
        rw [update_eq]
        rfl
      cases hr : s.settings.retainsEdits with
      | true => simp [hupdate, forgetEdits_of_retains hr, forgets, hr, drawnBy]
      | false => simp [hupdate, forgetEdits_of_not_retains hr, forgets, hr, drawnBy]
    | move id position =>
      obtain ⟨_, -, -, rfl⟩ := move_eq_ok_iff.mp h
      simp [forgets, drawnBy]
    | connect c millis =>
      obtain ⟨id, h⟩ := perform_connect_eq_ok_iff.mp h
      obtain ⟨_, -, -, -, -, rfl⟩ := connect_eq_ok_iff.mp h
      simp [forgets, drawnBy, h]
    | deleteNode id =>
      have h : s.deleteNode id = .ok s' := h
      obtain ⟨_, -, -, rfl⟩ := deleteNode_eq_ok_iff.mp h
      simp [forgets, drawnBy, h, Except.toBool]
    | deleteEdge id =>
      have h : s.deleteEdge id = .ok s' := h
      obtain ⟨_, -, -, rfl⟩ := deleteEdge_eq_ok_iff.mp h
      simp [forgets, drawnBy, h, Except.toBool, bne]

/-- **What a session has stored is what its history tells**: the edges stored before the run that
outlive it, and those drawn in the run that outlive its rest. -/
theorem drawn_run (s : Session) (edits : List Edit) :
    (s.run edits).drawn = s.drawn.filter (s.keeps · edits) ++ s.remembers edits := by
  induction edits generalizing s with
  | nil => simp [run, keeps, remembers]
  | cons edit edits ih =>
    have hrun : s.run (edit :: edits) = (s.after edit).run edits := rfl
    rw [hrun, ih, drawn_after, List.filter_append, List.filter_filter, List.append_assoc, remembers]
    simp only [keeps, Bool.and_comm]

theorem drawn_start_run (settings : SessionSettings) (edits : List Edit) :
    ((start settings).run edits).drawn = (start settings).remembers edits := by
  rw [drawn_run]
  rfl

end Session

/-! ### The edges of a diagram -/

/-- **An edge comes first with its id**: it is compiled, or it is drawn and fits, and neither a
compiled edge has its id nor an edge that was drawn before it and fits. -/
def ComesFirst (compiled : Diagram) (drawn : List Edge) (e : Edge) : Prop :=
  e ∈ compiled.edges ∨
    ∃ xs ys, drawn = xs ++ e :: ys ∧ compiled.fits e = true ∧ compiled.hasEdge e.id = false ∧
      ∀ x ∈ xs, compiled.fits x = true → x.id ≠ e.id

/-- **The edges after a new text**, told by the text and the history: those that come first with
their ids among the compiled edges and the drawn ones that the session remembers. -/
theorem mem_edges_update_iff {settings : SessionSettings} {edits : List Edit} {text : String}
    {d : Diagram} (h : (((Session.start settings).run edits).update text).view = .compiled d) :
    ∃ c, CompilesTo settings text c ∧ (∀ e, d.fits e = c.diagram.fits e) ∧
      ∀ e, e ∈ d.edges ↔ ComesFirst c.diagram
        ((Session.start settings).remembers (edits ++ [.update text])) e := by
  obtain ⟨c, hread, rfl⟩ := Session.view_update_eq_compiled_iff.mp h
  have hsettings : ((Session.start settings).run edits).settings = settings :=
    Session.settings_run _ edits
  rw [hsettings] at hread
  refine ⟨c, (reading_eq_compiled_iff.mp hread).2, Session.fits_reapply _ _, fun e => ?_⟩
  have hdrawn : ((Session.start settings).run edits).forgetEdits.drawn =
      (Session.start settings).remembers (edits ++ [.update text]) := by
    rw [← Session.drawn_start_run, Session.run_append]
    change _ = (((Session.start settings).run edits).update text).drawn
    rw [Session.update_eq]
    rfl
  rw [Session.mem_reapply_iff, hdrawn]
  rfl

end SchemaGraph
