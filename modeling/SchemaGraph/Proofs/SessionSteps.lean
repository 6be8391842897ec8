import Mathlib.Data.List.Induction
import SchemaGraph.Proofs.SoundDiagrams
import SchemaGraph.Session.History

/-!
# Steps of a session

What one edit can do to a session, said once for each kind of edit. A new text is read first, on its
own and apart from the session (`Reading.of`); what the session makes of it depends on the
reading and on the changes by hand that it remembers, and on nothing else (`Session.update_eq`). A
change by hand succeeds only on a compiled diagram, and then what it leaves behind is written out in
full (`move_eq_ok_iff`, `connect_eq_ok_iff`, `deleteNode_eq_ok_iff`, `deleteEdge_eq_ok_iff`). What
every successful edit keeps holds after every run (`Session.run_invariant`).
-/

namespace SchemaGraph

/-! ### Reading a text -/

/-- What a text comes to, apart from any session. -/
inductive Reading where
  /-- The text is blank. -/
  | blank
  /-- The text is no document, or the document does not compile. -/
  | broken (problem : Diagnostic) (message : String)
  | compiled (compiled : Compiled)

/-- Read a text under given settings. -/
def Reading.of (settings : SessionSettings) (text : String) : Reading :=
  if text.toList.all Text.isBlank then .blank
  else match Document.parse settings.dialect text with
    | .error e => .broken (e.diagnostic text) e.message
    | .ok document =>
      match compile settings.compile document with
      | .error e => .broken (e.diagnostic text) e.message
      | .ok c => .compiled c

/-- The text is a document, and the document compiles. -/
def CompilesTo (settings : SessionSettings) (text : String) (c : Compiled) : Prop :=
  ∃ document, Document.parse settings.dialect text = .ok document ∧
    compile settings.compile document = .ok c

/-- A text has a diagram when it is not blank, is a document, and the document compiles. -/
theorem reading_eq_compiled_iff {settings : SessionSettings} {text : String} {c : Compiled} :
    Reading.of settings text = .compiled c ↔
      text.toList.all Text.isBlank = false ∧ CompilesTo settings text c := by
  unfold Reading.of CompilesTo
  cases hb : text.toList.all Text.isBlank with
  | true => simp
  | false =>
    cases hp : Document.parse settings.dialect text with
    | error e => simp
    | ok document => cases hc : compile settings.compile document <;> simp [hc]

theorem reading_eq_blank_iff (settings : SessionSettings) {text : String} :
    Reading.of settings text = .blank ↔ text.toList.all Text.isBlank = true := by
  unfold Reading.of
  cases hb : text.toList.all Text.isBlank with
  | true => simp
  | false =>
    cases hp : Document.parse settings.dialect text with
    | error e => simp
    | ok document => cases hc : compile settings.compile document <;> simp [hc]

/-- What a text that has been read is reported for. -/
def Reading.diagnostics (text : String) (r : Reading) : List Diagnostic :=
  balance text ++ match r with
    | .blank => []
    | .broken problem _ => [problem]
    | .compiled c => c.warnings.map (·.diagnostic text)

/-- What is left out of the diagram of a text. -/
def Reading.warnings : Reading → List CompileWarning
  | .compiled c => c.warnings
  | _ => []

/-- What a session with its changes by hand shows of a text that has been read. -/
def Reading.viewIn (s : Session) : Reading → View
  | .blank => .empty
  | .broken _ message => .failed message
  | .compiled c => .compiled (s.reapply c.diagram)

namespace Session

variable {s s' : Session}

/-! ### A new text -/

theorem forgetEdits_of_retains (h : s.settings.retainsEdits = true) : s.forgetEdits = s := by
  rw [forgetEdits, if_pos h]

theorem forgetEdits_of_not_retains (h : s.settings.retainsEdits = false) :
    s.forgetEdits = { s with moved := ∅, drawn := [] } := by
  rw [forgetEdits, if_neg (by simp [h])]

theorem settings_forgetEdits (s : Session) : s.forgetEdits.settings = s.settings := by
  unfold forgetEdits
  split <;> rfl

/-- What a session makes of a text that has been read. -/
def adopt (s : Session) (text : String) (r : Reading) : Session :=
  { s.forgetEdits with
    text
    view := r.viewIn s.forgetEdits
    catalog := .outline text
    diagnostics := r.diagnostics text
    warnings := r.warnings }

/-- A new text is read apart from the session, and then adopted. -/
theorem update_eq (s : Session) (text : String) :
    s.update text = s.adopt text (Reading.of s.settings text) := by
  have hsettings : (s.takeText text).settings = s.settings := settings_forgetEdits s
  unfold update Reading.of
  dsimp only
  by_cases hb : text.toList.all Text.isBlank = true
  · rw [if_pos hb, if_pos hb, adopt, Reading.diagnostics, List.append_nil]
    rfl
  · rw [if_neg hb, if_neg hb, ← hsettings]
    cases Document.parse (s.takeText text).settings.dialect text with
    | error e => rfl
    | ok document =>
      cases hc : compile (s.takeText text).settings.compile document <;> simp only [hc] <;> rfl

/-- A session shows a diagram after a new text when the text has one. -/
theorem view_update_eq_compiled_iff {text : String} {d : Diagram} :
    (s.update text).view = .compiled d ↔ ∃ c, Reading.of s.settings text = .compiled c ∧
      s.forgetEdits.reapply c.diagram = d := by
  rw [update_eq]
  cases Reading.of s.settings text <;> simp [adopt, Reading.viewIn]

theorem settings_update (s : Session) (text : String) :
    (s.update text).settings = s.settings := by
  rw [update_eq]
  exact settings_forgetEdits s

/-! ### Changes by hand -/

/-- A session with something to be seen of its diagram shows one. -/
theorem exists_view_of_map_diagram? {α : Type} {f : Diagram → α} {a : α}
    (h : s.view.diagram?.map f = some a) : ∃ d, s.view = .compiled d ∧ f d = a := by
  obtain ⟨d, hd, hf⟩ := Option.map_eq_some_iff.mp h
  unfold View.diagram? at hd
  split at hd
  · next d' hv =>
    cases hd
    exact ⟨d, hv, hf⟩
  · cases hd

theorem diagram_eq_ok_iff {d : Diagram} : s.diagram = .ok d ↔ s.view = .compiled d := by
  unfold diagram
  cases s.view <;> simp

theorem move_eq_ok_iff {id : String} {position : Position} :
    s.move id position = .ok s' ↔ ∃ d, s.view = .compiled d ∧ d.hasNode id = true ∧
      s' = { s with
        view := .compiled (d.place id position), moved := s.moved.insert id position } := by
  unfold move
  simp only [bind_eq_ok_iff, diagram_eq_ok_iff, ite_pure_throw_eq_ok_iff]

theorem deleteNode_eq_ok_iff {id : String} :
    s.deleteNode id = .ok s' ↔ ∃ d, s.view = .compiled d ∧ d.hasNode id = true ∧
      s' = { s with
        view := .compiled (d.removeNode id)
        moved := s.moved.erase id
        drawn := s.drawn.filter (!·.touches id) } := by
  unfold deleteNode
  simp only [bind_eq_ok_iff, diagram_eq_ok_iff, ite_pure_throw_eq_ok_iff]

theorem deleteEdge_eq_ok_iff {id : String} :
    s.deleteEdge id = .ok s' ↔ ∃ d, s.view = .compiled d ∧ d.hasEdge id = true ∧
      s' = { s with
        view := .compiled (d.removeEdge id), drawn := s.drawn.filter (·.id != id) } := by
  unfold deleteEdge
  simp only [bind_eq_ok_iff, diagram_eq_ok_iff, ite_pure_throw_eq_ok_iff]

end Session

/-- The id that an edge drawn at a given time has, or begins with. -/
def Connection.baseId (c : Connection) (millis : Nat) : String :=
  s!"e-{c.source}-{c.target}-{millis}"

/-- The edge that is drawn for a connection under a given id. -/
def Connection.edge (c : Connection) (id : String) : Edge :=
  .between id c.source (Side.source.field c.sourceHandle) c.target
    (Side.target.field c.targetHandle)

/-- The edge of a connection has its ends at the ports of the connection. -/
theorem Connection.fits_edge {d : Diagram} {c : Connection}
    (hsource : d.hasPort .source c.source c.sourceHandle = true)
    (htarget : d.hasPort .target c.target c.targetHandle = true) (id : String) :
    d.fits (c.edge id) = true := by
  rw [Diagram.hasPort_iff] at hsource htarget
  rw [Diagram.fits_iff, Diagram.hasPort_iff, Diagram.hasPort_iff]
  simp only [Connection.edge, Edge.between, Side.field_handle]
  exact ⟨hsource, htarget⟩

namespace Session

variable {s s' : Session}

theorem connect_eq_ok_iff {c : Connection} {millis : Nat} {id : String} :
    s.connect c millis = .ok (id, s') ↔ ∃ d, s.view = .compiled d ∧
      d.hasPort .source c.source c.sourceHandle = true ∧
      d.hasPort .target c.target c.targetHandle = true ∧
      id = d.freeEdgeId (c.baseId millis) ∧
      s' = { s with
        view := .compiled (d.addEdge (c.edge id)), drawn := s.drawn ++ [c.edge id] } := by
  unfold connect
  simp only [bind_eq_ok_iff, diagram_eq_ok_iff, pure_eq_ok_iff, Prod.mk.injEq]
  constructor
  · rintro ⟨d, hd, _, hs, _, ht, rfl, rfl⟩
    exact ⟨d, hd, by rw [Diagram.hasPort, hs]; rfl, by rw [Diagram.hasPort, ht]; rfl, rfl, rfl⟩
  · rintro ⟨d, hd, hs, ht, rfl, rfl⟩
    refine ⟨d, hd, (), ?_, (), ?_, rfl, rfl⟩
    · exact Diagram.checkPort_eq_ok_iff.mpr (Diagram.hasPort_iff.mp hs)
    · exact Diagram.checkPort_eq_ok_iff.mpr (Diagram.hasPort_iff.mp ht)

/-! ### Runs -/

theorem perform_connect_eq_ok_iff {c : Connection} {millis : Nat} :
    s.perform (.connect c millis) = .ok s' ↔ ∃ id, s.connect c millis = .ok (id, s') := by
  rw [perform, map_eq_ok_iff]
  exact ⟨fun ⟨⟨id, _⟩, h, hs⟩ => ⟨id, by rw [h, ← hs]⟩, fun ⟨id, h⟩ => ⟨(id, s'), h, rfl⟩⟩

/-- Every edit leaves the settings alone. -/
theorem settings_perform {edit : Edit} (h : s.perform edit = .ok s') :
    s'.settings = s.settings := by
  cases edit with
  | update text =>
    cases h
    exact settings_update s text
  | move id position =>
    obtain ⟨_, -, -, rfl⟩ := move_eq_ok_iff.mp h
    rfl
  | connect c millis =>
    obtain ⟨id, h⟩ := perform_connect_eq_ok_iff.mp h
    obtain ⟨_, -, -, -, -, rfl⟩ := connect_eq_ok_iff.mp h
    rfl
  | deleteNode id =>
    obtain ⟨_, -, -, rfl⟩ := deleteNode_eq_ok_iff.mp h
    rfl
  | deleteEdge id =>
    obtain ⟨_, -, -, rfl⟩ := deleteEdge_eq_ok_iff.mp h
    rfl

theorem run_append (s : Session) (xs ys : List Edit) : s.run (xs ++ ys) = (s.run xs).run ys :=
  List.foldl_append

/-- What the start has and every successful edit keeps, a run has. -/
theorem run_invariant {P : Session → Prop} (hstart : P s)
    (hstep : ∀ s edit s', P s → s.perform edit = .ok s' → P s') (edits : List Edit) :
    P (s.run edits) := by
  induction edits generalizing s with
  | nil => exact hstart
  | cons edit edits ih =>
    refine ih (s := s.after edit) ?_
    unfold after
    split
    · next h => exact hstep s edit _ hstart h
    · exact hstart

/-- A run leaves the settings alone. -/
theorem settings_run (s : Session) (edits : List Edit) : (s.run edits).settings = s.settings :=
  run_invariant (P := fun s₁ => s₁.settings = s.settings) rfl
    (fun _ _ _ hs h => (settings_perform h).trans hs) edits

end Session

end SchemaGraph
