import SchemaGraph.Proofs.SessionSteps

/-!
# Whatever is done to a session, its diagram is sound

The diagram of a session comes about in several ways: it is compiled from a text, changes by hand
are carried over to it, and it is changed by hand again. Compiled edges and drawn edges share one
namespace of ids. Each of the ways keeps the diagram sound, so a diagram that is shown after any
number of edits is sound.
-/

namespace SchemaGraph

namespace Session

/-- The diagram that a session shows, if it shows one, is sound. -/
def Sound (s : Session) : Prop :=
  ∀ d, s.view = .compiled d → d.Sound

theorem sound_start (settings : SessionSettings) : (start settings).Sound := by
  intro d h
  cases h

theorem sound_of_view_eq {s : Session} {d : Diagram} (hd : d.Sound)
    (hv : s.view = .compiled d) : s.Sound := by
  intro d' h
  rw [hv] at h
  cases h
  exact hd

/-- Edges drawn by hand are carried over to a new diagram under ids that it does not use. -/
theorem sound_reapply (s : Session) {d : Diagram} (hd : d.Sound) : (s.reapply d).Sound :=
  (hd.placeMoved s.moved).redrawAll s.drawn

theorem sound_update (s : Session) (text : String) : (s.update text).Sound := by
  intro d h
  obtain ⟨c, hread, rfl⟩ := view_update_eq_compiled_iff.mp h
  obtain ⟨-, document, -, hcompile⟩ := reading_eq_compiled_iff.mp hread
  exact sound_reapply _ (sound_of_compile hcompile)

/-- Every edit keeps a session sound. -/
theorem sound_perform {s s' : Session} {edit : Edit} (hs : s.Sound)
    (h : s.perform edit = .ok s') : s'.Sound := by
  cases edit with
  | update text =>
    cases h
    exact sound_update s text
  | move id position =>
    obtain ⟨d, hd, -, rfl⟩ := move_eq_ok_iff.mp h
    exact sound_of_view_eq ((hs d hd).place id position) rfl
  | connect c millis =>
    obtain ⟨id, h⟩ := perform_connect_eq_ok_iff.mp h
    obtain ⟨d, hd, hsource, htarget, rfl, rfl⟩ := connect_eq_ok_iff.mp h
    exact sound_of_view_eq ((hs d hd).addEdge (Diagram.freeEdgeId_not_mem d _)
      (Diagram.mem_nodes_of_hasPort hsource) (Diagram.mem_nodes_of_hasPort htarget)) rfl
  | deleteNode id =>
    obtain ⟨d, hd, -, rfl⟩ := deleteNode_eq_ok_iff.mp h
    exact sound_of_view_eq ((hs d hd).removeNode id) rfl
  | deleteEdge id =>
    obtain ⟨d, hd, -, rfl⟩ := deleteEdge_eq_ok_iff.mp h
    exact sound_of_view_eq ((hs d hd).removeEdge id) rfl

/-- Every run keeps a session sound. -/
theorem sound_run (settings : SessionSettings) (edits : List Edit) :
    ((start settings).run edits).Sound :=
  run_invariant (sound_start settings) (fun _ _ _ => sound_perform) edits

end Session

/-- **Whatever is done to a session, in whatever order, a diagram that it shows is sound**: ids tell
its nodes apart and its edges apart, and every edge runs between nodes of the diagram. -/
theorem shown_diagram_sound (settings : SessionSettings) (edits : List Edit) {d : Diagram}
    (h : ((Session.start settings).run edits).view = .compiled d) :
    (d.nodes.map Node.id).Nodup ∧ (d.edges.map Edge.id).Nodup ∧
      ∀ e ∈ d.edges, e.source ∈ d.nodes.map Node.id ∧ e.target ∈ d.nodes.map Node.id := by
  have hd := Session.sound_run settings edits d h
  exact ⟨hd.nodes_distinct, hd.edges_distinct, hd.anchored⟩

/-- Two edges that are drawn at one time between the same columns, in a diagram that is compiled
again after that. -/
theorem shown_diagram_sound_redrawn :
    let c : Connection := ⟨"public.a", "source-x", "public.a", "target-x"⟩
    let edits : List Edit := [.update "Table a{x i}", .connect c 0, .connect c 0,
      .update "Table a{x i}"]
    ∃ d, ((Session.start { retainsEdits := true }).run edits).view = .compiled d ∧
      d.edges.map Edge.id = ["e-public.a-public.a-0", "e-public.a-public.a-0-1"] ∧
      (d.nodes.map Node.id).Nodup ∧ (d.edges.map Edge.id).Nodup ∧
      ∀ e ∈ d.edges, e.source ∈ d.nodes.map Node.id ∧ e.target ∈ d.nodes.map Node.id := by
  intro c edits
  have heval : ((Session.start { retainsEdits := true }).run edits).view.diagram?.map
      (·.edges.map Edge.id) = some ["e-public.a-public.a-0", "e-public.a-public.a-0-1"] := by
    decide +kernel
  obtain ⟨d, hview, hids⟩ := Session.exists_view_of_map_diagram? heval
  exact ⟨d, hview, hids, shown_diagram_sound _ _ hview⟩

end SchemaGraph
