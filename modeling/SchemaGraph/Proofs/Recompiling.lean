import SchemaGraph.Proofs.ShownDiagrams

/-!
# Recompiling the same text

What a retaining session shows is what its text compiles to, with the remembered changes by hand
carried over. Nodes that are moved and edges that are drawn after the text was set are remembered as
well, so that carrying them over comes to the same as making them in the diagram at once: a place is
remembered under the id of the one node that is moved (`Diagram.place_redrawAll`), and an edge is
drawn under an id that is free in the diagram, so that it is drawn again behind all others
(`Diagram.redraw_eq_addEdge`). Hence setting the same text once more changes nothing at all
(`recompiling_changes_nothing`), though edges of earlier texts are remembered too, and may share
their ids with the new ones.
-/

namespace SchemaGraph

/-- Whether an edit moves a node or draws an edge. -/
def Edit.arranges : Edit → Bool
  | .move .. | .connect .. => true
  | .update _ | .deleteNode _ | .deleteEdge _ => false

namespace Diagram

variable {d : Diagram}

/-! ### Moving a node, before or after -/

/-- Where ids tell nodes apart, moving a node is remembering its new place. -/
theorem place_placeMoved (hdistinct : (d.nodes.map Node.id).Nodup) (moved : OrderedMap Position)
    (id : String) (position : Position) :
    (d.placeMoved moved).place id position = d.placeMoved (moved.insert id position) := by
  obtain ⟨nodes, edges⟩ := d
  unfold placeMoved place
  dsimp only at hdistinct ⊢
  congr 1
  induction nodes with
  | nil => rfl
  | cons n rest ih =>
    obtain ⟨hfirst, hrest⟩ := List.nodup_cons.mp hdistinct
    rw [List.map_cons, List.map_cons, placeNode, OrderedMap.get?_insert]
    by_cases hid : n.id = id
    · rw [if_pos hid, if_pos hid]
      congr 1
      -- no other node has the id
      refine List.map_congr_left fun m hm => ?_
      have hne : m.id ≠ id := by
        intro hm_id
        apply hfirst
        rw [hid, ← hm_id]
        exact List.mem_map_of_mem hm
      rw [OrderedMap.get?_insert, if_neg hne]
    · rw [if_neg hid, if_neg hid, ih hrest]

/-- Whether an edge is drawn again does not depend on places. -/
theorem place_redraw (d : Diagram) (e : Edge) (id : String) (position : Position) :
    (d.redraw e).place id position = (d.place id position).redraw e := by
  have hfits : (d.place id position).fits e = d.fits e :=
    fits_congr (unplaced_place d id position) e
  have hused : (d.place id position).hasEdge e.id = d.hasEdge e.id := rfl
  unfold redraw
  rw [hfits, hused]
  split_ifs <;> rfl

theorem place_redrawAll (d : Diagram) (es : List Edge) (id : String) (position : Position) :
    (es.foldl redraw d).place id position = es.foldl redraw (d.place id position) := by
  induction es generalizing d with
  | nil => rfl
  | cons e es ih => rw [List.foldl_cons, List.foldl_cons, ih, place_redraw]

/-! ### Drawing an edge, before or after -/

/-- An edge that fits and has a free id is drawn again. -/
theorem redraw_eq_addEdge {e : Edge} (hfits : d.fits e = true) (hfree : d.hasEdge e.id = false) :
    d.redraw e = d.addEdge e := by
  rw [redraw, if_neg (by simp [hfree]), if_pos hfits]

end Diagram

namespace Session

variable {s s' : Session}

/-! ### Changes by hand, carried over -/

/-- A node that is moved stands where it would be carried over to. -/
theorem reapply_of_moved {d : Diagram} {id : String} {position : Position}
    (hdistinct : (d.nodes.map Node.id).Nodup)
    (hmoved : s'.moved = s.moved.insert id position) (hdrawn : s'.drawn = s.drawn) :
    s'.reapply d = (s.reapply d).place id position := by
  rw [reapply, reapply, hmoved, hdrawn, Diagram.place_redrawAll,
    Diagram.place_placeMoved hdistinct]

/-- An edge that is drawn at a free id comes last, as it would be carried over. -/
theorem reapply_of_drawn {d : Diagram} {e : Edge} (hmoved : s'.moved = s.moved)
    (hdrawn : s'.drawn = s.drawn ++ [e]) (hfits : (s.reapply d).fits e = true)
    (hfree : (s.reapply d).hasEdge e.id = false) :
    s'.reapply d = (s.reapply d).addEdge e := by
  rw [reapply, hmoved, hdrawn, List.foldl_append, List.foldl_cons, List.foldl_nil]
  exact Diagram.redraw_eq_addEdge hfits hfree

/-! ### Sessions that are up to date -/

/-- **A session is up to date with a text**: it shows a diagram, and setting the text once more
would change nothing. -/
structure UpToDate (s : Session) (text : String) : Prop where
  retains : s.settings.retainsEdits = true
  shown : ∃ d, s.view = .compiled d
  same : s.update text = s

/-- A retaining session stays as it is under a text when it holds what it makes of that text. -/
theorem update_eq_self_iff (hretains : s.settings.retainsEdits = true) {text : String} :
    s.update text = s ↔ s.text = text ∧ s.view = (Reading.of s.settings text).viewIn s ∧
      s.catalog = .outline text ∧
      s.diagnostics = (Reading.of s.settings text).diagnostics text ∧
      s.warnings = (Reading.of s.settings text).warnings := by
  rw [update_eq, adopt, forgetEdits_of_retains hretains]
  obtain ⟨settings, text', view, catalog, diagnostics, warnings, moved, drawn⟩ := s
  simp only [Session.mk.injEq, true_and, and_true]
  constructor
  · rintro ⟨rfl, hview, rfl, rfl, rfl⟩
    exact ⟨rfl, hview.symm, rfl, rfl, rfl⟩
  · rintro ⟨rfl, hview, rfl, rfl, rfl⟩
    exact ⟨rfl, hview.symm, rfl, rfl, rfl⟩

/-- What a session shows of a text depends on the changes by hand that it remembers. -/
theorem viewIn_congr (hmoved : s'.moved = s.moved) (hdrawn : s'.drawn = s.drawn) (r : Reading) :
    r.viewIn s' = r.viewIn s := by
  cases r with
  | blank => rfl
  | broken problem message => rfl
  | compiled c => rw [Reading.viewIn, Reading.viewIn, reapply, reapply, hmoved, hdrawn]

/-- A retaining session is up to date with the text that it has just compiled. -/
theorem upToDate_update (hretains : s.settings.retainsEdits = true) {text : String}
    (hshown : ∃ d, (s.update text).view = .compiled d) : (s.update text).UpToDate text := by
  have hsettings := settings_update s text
  refine ⟨by rw [hsettings, hretains], hshown, ?_⟩
  rw [update_eq_self_iff (by rw [hsettings, hretains]), hsettings]
  have hforget := forgetEdits_of_retains hretains
  have hmoved : (s.update text).moved = s.moved := by
    rw [update_eq, adopt, hforget]
  have hdrawn : (s.update text).drawn = s.drawn := by
    rw [update_eq, adopt, hforget]
  rw [viewIn_congr hmoved hdrawn, update_eq, adopt, hforget]
  exact ⟨rfl, rfl, rfl, rfl, rfl⟩

/-- The diagram of a session that is up to date is the compiled one with the changes by hand. -/
theorem UpToDate.reading {text : String} {d : Diagram} (h : s.UpToDate text)
    (hview : s.view = .compiled d) :
    ∃ c, Reading.of s.settings text = .compiled c ∧ (c.diagram.nodes.map Node.id).Nodup ∧
      s.reapply c.diagram = d := by
  rw [← h.same] at hview
  obtain ⟨c, hread, hd⟩ := view_update_eq_compiled_iff.mp hview
  obtain ⟨-, document, -, hcompile⟩ := reading_eq_compiled_iff.mp hread
  rw [forgetEdits_of_retains h.retains] at hd
  exact ⟨c, hread, (sound_of_compile hcompile).nodes_distinct, hd⟩

/-- A session stays up to date when its diagram changes as a new compilation of the text would have
it, and nothing else changes but what is remembered. -/
theorem UpToDate.of_reapply {text : String} {c : Compiled} (h : s.UpToDate text)
    (hread : Reading.of s.settings text = .compiled c)
    (hrest : s' = { s with view := s'.view, moved := s'.moved, drawn := s'.drawn })
    (hview : s'.view = .compiled (s'.reapply c.diagram)) : s'.UpToDate text := by
  have hsettings : s'.settings = s.settings := by rw [hrest]
  have hretains : s'.settings.retainsEdits = true := by rw [hsettings, h.retains]
  obtain ⟨htext, -, hcatalog, hdiagnostics, hwarnings⟩ :=
    (update_eq_self_iff h.retains).mp h.same
  rw [hread] at hdiagnostics hwarnings
  refine ⟨hretains, ⟨_, hview⟩, (update_eq_self_iff hretains).mpr ?_⟩
  rw [hview, hsettings, hread, hrest]
  exact ⟨htext, rfl, hcatalog, hdiagnostics, hwarnings⟩

/-- Moving nodes and drawing edges keeps a session up to date. -/
theorem UpToDate.perform {text : String} {edit : Edit} (h : s.UpToDate text)
    (hedit : edit.arranges = true) (hperform : s.perform edit = .ok s') : s'.UpToDate text := by
  cases edit with
  | update text' => cases hedit
  | deleteNode id => cases hedit
  | deleteEdge id => cases hedit
  | move id position =>
    obtain ⟨d, hview, -, hs'⟩ := move_eq_ok_iff.mp hperform
    obtain ⟨c, hread, hdistinct, rfl⟩ := h.reading hview
    have hmoved : s'.moved = s.moved.insert id position := by rw [hs']
    have hdrawn : s'.drawn = s.drawn := by rw [hs']
    refine h.of_reapply hread (by rw [hs']) ?_
    rw [reapply_of_moved hdistinct hmoved hdrawn, hs']
  | connect connection millis =>
    obtain ⟨id, hperform⟩ := perform_connect_eq_ok_iff.mp hperform
    obtain ⟨d, hview, hsource, htarget, hid, hs'⟩ := connect_eq_ok_iff.mp hperform
    obtain ⟨c, hread, -, rfl⟩ := h.reading hview
    have hmoved : s'.moved = s.moved := by rw [hs']
    have hdrawn : s'.drawn = s.drawn ++ [connection.edge id] := by rw [hs']
    have hfits := connection.fits_edge hsource htarget id
    have hfree : (s.reapply c.diagram).hasEdge id = false := by
      rw [← Bool.not_eq_true, Diagram.hasEdge_iff, hid]
      exact Diagram.freeEdgeId_not_mem _ _
    refine h.of_reapply hread (by rw [hs']) ?_
    rw [reapply_of_drawn hmoved hdrawn hfits hfree, hs']

/-- A session stays up to date through a run that only moves nodes and draws edges, with or without
success. -/
theorem UpToDate.run {text : String} {changes : List Edit} (h : s.UpToDate text)
    (hchanges : ∀ edit ∈ changes, edit.arranges = true) : (s.run changes).UpToDate text := by
  induction changes generalizing s with
  | nil => exact h
  | cons edit changes ih =>
    obtain ⟨hedit, hchanges⟩ := List.forall_mem_cons.mp hchanges
    have hnext : (s.after edit).UpToDate text := by
      cases hperform : s.perform edit with
      | error x =>
        rw [after_of_error hperform]
        exact h
      | ok s' =>
        rw [after_of_ok hperform]
        exact h.perform hedit hperform
    exact ih hnext hchanges

end Session

/-- **Recompiling the same text changes nothing.** A retaining session, whatever was done to it,
shows a diagram of a new text; then nodes are moved and edges are drawn, with or without success.
If the same text is set once more, the session shows the same diagram, node for node and edge for
edge, and is as it was in all else. -/
theorem recompiling_changes_nothing {settings : SessionSettings}
    (hretains : settings.retainsEdits = true) (history : List Edit) {text : String}
    {compiled : Diagram}
    (hcompiled : (((Session.start settings).run history).update text).view = .compiled compiled)
    {changes : List Edit} (hchanges : ∀ edit ∈ changes, edit.arranges = true) :
    let s := (((Session.start settings).run history).update text).run changes
    ∃ d, s.view = .compiled d ∧ (s.update text).view = .compiled d ∧ s.update text = s := by
  intro s
  have hstart : ((Session.start settings).run history).settings.retainsEdits = true := by
    rw [Session.settings_run]
    exact hretains
  have h : s.UpToDate text := (Session.upToDate_update hstart ⟨compiled, hcompiled⟩).run hchanges
  obtain ⟨d, hview⟩ := h.shown
  refine ⟨d, hview, ?_, h.same⟩
  rw [h.same, hview]

/-! ### Edges that share an id -/

/-- After an edge is drawn, its columns disappear from the text. -/
def hiddenEdge : List Edit :=
  [.update "Table a\x7bx i\ny i\x7d", .connect ⟨"public.a", "source-x", "public.a", "target-x"⟩ 5]

/-- Two edges are drawn at the time at which the one out of sight was drawn, an edge is refused, and
the node is moved. -/
def crowding : List Edit :=
  [.connect ⟨"public.a", "source-y", "public.a", "target-y"⟩ 5,
    .connect ⟨"public.a", "source-y", "public.a", "target-y"⟩ 5,
    .connect ⟨"public.a", "source-x", "public.a", "target-y"⟩ 5, .move "public.a" ⟨7, 9⟩]

/-- The first of the two edges has the id of the edge out of sight, which is remembered before it;
both are there again. -/
theorem recompiling_changes_nothing_crowded :
    let text := "Table a{y i}"
    let s := (((Session.start { retainsEdits := true }).run hiddenEdge).update text).run crowding
    s.drawn.map Edge.id =
      ["e-public.a-public.a-5", "e-public.a-public.a-5", "e-public.a-public.a-5-1"] ∧
    ∃ d, s.view = .compiled d ∧
      d.edges.map Edge.id = ["e-public.a-public.a-5", "e-public.a-public.a-5-1"] ∧
      d.nodes.map Node.position = [⟨7, 9⟩] ∧
      (s.update text).view = .compiled d ∧ s.update text = s := by
  intro text s
  have hstart : (((Session.start { retainsEdits := true }).run hiddenEdge).update
      text).view.diagram?.map (fun _ => ()) = some () := by
    decide +kernel
  have hseen : s.view.diagram?.map (fun d => (d.edges.map Edge.id, d.nodes.map Node.position)) =
      some (["e-public.a-public.a-5", "e-public.a-public.a-5-1"], [⟨7, 9⟩]) := by
    decide +kernel
  obtain ⟨compiled, hcompiled, -⟩ := Session.exists_view_of_map_diagram? hstart
  obtain ⟨d, hview, hd⟩ := Session.exists_view_of_map_diagram? hseen
  obtain ⟨hedges, hnodes⟩ := Prod.mk.inj hd
  have hchanges : ∀ edit ∈ crowding, edit.arranges = true := by decide
  obtain ⟨d', hview', hagain, hsame⟩ :=
    recompiling_changes_nothing rfl hiddenEdge hcompiled hchanges
  obtain rfl : d = d' := View.compiled.inj (hview.symm.trans hview')
  exact ⟨by decide +kernel, d, hview, hedges, hnodes, hagain, hsame⟩

end SchemaGraph
