import SchemaGraph.Proofs.ShownDiagrams

/-!
# Removed edges do not come back

An edge that is drawn is kept in the diagram and among the edges that the session remembers, and it
can be out of the diagram for a while. A deletion takes it out of both places, so that no later text
brings it back: whatever edge a diagram shows beside the compiled ones was drawn in the run of
edits, and nothing that removes it has succeeded since (`shown_edge_outlasts`).
-/

namespace SchemaGraph

namespace Session

variable {s : Session} {e : Edge} {edits : List Edit}

/-- **An edge outlasts a run**: no edge with its id and no node at which it ends is deleted in the
run, and, unless the session retains changes by hand, no text is set. -/
structure Outlasts (s : Session) (e : Edge) (edits : List Edit) : Prop where
  edge : ∀ xs ys, edits = xs ++ .deleteEdge e.id :: ys →
    ((s.run xs).deleteEdge e.id).toBool = false
  node : ∀ xs n ys, edits = xs ++ .deleteNode n :: ys → e.source = n ∨ e.target = n →
    ((s.run xs).deleteNode n).toBool = false
  text : s.settings.retainsEdits = false → ∀ xs text ys, edits ≠ xs ++ .update text :: ys

/-- An edge that is kept through a run outlasts it. -/
theorem outlasts_of_keeps (h : s.keeps e edits = true) : s.Outlasts e edits := by
  rw [keeps_iff] at h
  refine ⟨?_, ?_, ?_⟩
  · intro xs ys hsplit
    have hkept := h xs _ ys hsplit
    rw [forgets, beq_self_eq_true, Bool.and_true] at hkept
    exact hkept
  · intro xs n ys hsplit hend
    have hkept := h xs _ ys hsplit
    have htouches : e.touches n = true := by simpa [Edge.touches] using hend
    rw [forgets, htouches, Bool.and_true] at hkept
    exact hkept
  · intro hretains xs text ys hsplit
    have hkept := h xs _ ys hsplit
    rw [forgets, settings_run, hretains] at hkept
    cases hkept

/-- A remembered edge was drawn at some point of the run and is kept through the rest of it. -/
theorem exists_connect_of_mem_remembers (h : e ∈ s.remembers edits) :
    ∃ before c millis later id s', edits = before ++ .connect c millis :: later ∧
      (s.run before).connect c millis = .ok (id, s') ∧ e = c.edge id ∧
      s'.keeps e later = true := by
  induction edits generalizing s with
  | nil => cases h
  | cons edit edits ih =>
    rw [remembers, List.mem_append, List.mem_filter, Option.mem_toList] at h
    rcases h with ⟨hdrawn, hkept⟩ | h
    · cases edit with
      | connect c millis =>
        cases hc : s.connect c millis with
        | error x => simp [drawnBy, hc] at hdrawn
        | ok drawn =>
          obtain ⟨id, s'⟩ := drawn
          have hafter : s.after (.connect c millis) = s' :=
            after_of_ok (perform_connect_eq_ok_iff.mpr ⟨id, hc⟩)
          simp only [drawnBy, hc, Option.some.injEq] at hdrawn
          exact ⟨[], c, millis, edits, id, s', rfl, hc, hdrawn.symm, hafter ▸ hkept⟩
      | _ => cases hdrawn
    · obtain ⟨before, c, millis, later, id, s', rfl, hconnect, he, hkept⟩ := ih h
      exact ⟨edit :: before, c, millis, later, id, s', rfl, hconnect, he, hkept⟩

end Session

/-- **Removed edges do not come back.** An edge of a diagram that is shown after a run, and that is
not compiled from the last text of the run, was drawn in the run, and since then neither an edge
with its id nor a node at which it ends was deleted, nor was a text set if the session retains no
changes by hand. -/
theorem shown_edge_outlasts (settings : SessionSettings) (edits : List Edit) {d : Diagram}
    (h : ((Session.start settings).run edits).view = .compiled d) :
    ∃ text c, lastText? edits = some text ∧ CompilesTo settings text c ∧
      ∀ e ∈ d.edges, e ∉ c.diagram.edges → ∃ before connection millis later id s,
        edits = before ++ .connect connection millis :: later ∧
        ((Session.start settings).run before).connect connection millis = .ok (id, s) ∧
        e = connection.edge id ∧ s.Outlasts e later := by
  obtain ⟨text, c, htext, hc, hd⟩ := follows_of_view h
  refine ⟨text, c, htext, hc, fun e he hcompiled => ?_⟩
  have hdrawn : e ∈ (Session.start settings).remembers edits := by
    rw [← Session.drawn_start_run]
    exact (hd.edges e he).resolve_left hcompiled
  obtain ⟨before, connection, millis, later, id, s, hsplit, hconnect, hedge, hkept⟩ :=
    Session.exists_connect_of_mem_remembers hdrawn
  exact ⟨before, connection, millis, later, id, s, hsplit, hconnect, hedge,
    Session.outlasts_of_keeps hkept⟩

/-- Of three edges that are drawn, one is deleted, one goes with a node that is deleted, and the
other one is shown again behind a text without its columns. -/
theorem shown_edge_outlasts_deletions :
    let tables := "Table a{x i}\nTable b{x i}"
    let between (source target : String) : Connection := ⟨source, "source-x", target, "target-x"⟩
    let edits : List Edit := [.update tables, .connect (between "public.a" "public.a") 1,
      .connect (between "public.a" "public.a") 2, .connect (between "public.a" "public.b") 3,
      .deleteEdge "e-public.a-public.a-1", .deleteNode "public.b", .update "Table c{x i}",
      .update tables]
    ∃ d, ((Session.start { retainsEdits := true }).run edits).view = .compiled d ∧
      d.edges.map Edge.id = ["e-public.a-public.a-2"] ∧
      ∀ e ∈ d.edges, ∃ before connection millis later id s,
        edits = before ++ .connect connection millis :: later ∧
        ((Session.start { retainsEdits := true }).run before).connect connection millis =
          .ok (id, s) ∧
        e = connection.edge id ∧ s.Outlasts e later := by
  intro tables between edits
  have heval : ((Session.start { retainsEdits := true }).run edits).view.diagram?.map
      (·.edges.map Edge.id) = some ["e-public.a-public.a-2"] := by
    decide +kernel
  have hplain : ((Document.parse .partials tables).toOption.bind
      fun document => (compile {} document).toOption).map (·.diagram.edges) = some [] := by
    decide +kernel
  obtain ⟨d, hview, hids⟩ := Session.exists_view_of_map_diagram? heval
  obtain ⟨text, c, htext, ⟨document, hparse, hcompile⟩, hdrawn⟩ := shown_edge_outlasts _ _ hview
  obtain rfl : tables = text := Option.some.inj htext
  have hnone : c.diagram.edges = [] := by
    simpa [hparse, hcompile, Except.toOption] using hplain
  refine ⟨d, hview, hids, fun e he => hdrawn e he ?_⟩
  rw [hnone]
  exact List.not_mem_nil

end SchemaGraph
