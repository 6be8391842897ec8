import SchemaGraph.Proofs.Remembering

/-!
# Which drawn edges come back

A session that retains changes by hand should show a drawn edge whenever both of its ports are
there, unless it was deleted. An edge that is out of sight keeps its place among the remembered
edges, but a new edge need only differ in its id from those in sight. So two remembered edges can
have one id, and when the ports of both are there, only the one drawn first is shown
(`drawn_edge_lost`). Likewise a compiled edge can have the id, and a deletion by id is of all the
edges that have it. This module says exactly when an edge is there again (`drawn_edge_back_iff`).
-/

namespace SchemaGraph

/-- Two edges run between the same ports. -/
structure Edge.Parallel (e e' : Edge) : Prop where
  source : e.source = e'.source
  target : e.target = e'.target
  sourceHandle : e.sourceHandle = e'.sourceHandle
  targetHandle : e.targetHandle = e'.targetHandle

/-- A session shows an edge. -/
def Session.Shows (s : Session) (e : Edge) : Prop :=
  ∃ d, s.view = .compiled d ∧ e ∈ d.edges

/-- **A run spares an edge**: it deletes no edge with its id while the edge is shown, and no node at
which it ends. -/
structure Session.Spares (s : Session) (e : Edge) (edits : List Edit) : Prop where
  edge : ∀ xs ys, edits = xs ++ .deleteEdge e.id :: ys → ¬ (s.run xs).Shows e
  node : ∀ xs n ys, edits = xs ++ .deleteNode n :: ys → e.touches n = true →
    ((s.run xs).deleteNode n).toBool = false

/-- An edit that deletes something. -/
def Edit.deletes : Edit → Bool
  | .deleteNode _ | .deleteEdge _ => true
  | .update _ | .move .. | .connect .. => false

namespace Session

variable {s s' : Session}

/-- A run without deletions spares every edge. -/
theorem spares_of_forall_not_deletes {e : Edge} {edits : List Edit}
    (h : ∀ edit ∈ edits, edit.deletes = false) : s.Spares e edits where
  edge := by
    rintro xs ys rfl
    cases h (.deleteEdge e.id) (by simp)
  node := by
    rintro xs n ys rfl
    cases h (.deleteNode n) (by simp)

/-- A retaining session keeps an edge that is spared, unless an edge with its id is deleted while it
is out of sight. -/
theorem Spares.keeps {e : Edge} {edits : List Edit} (hspared : s.Spares e edits)
    (hretains : s.settings.retainsEdits = true)
    (hhidden : ∀ xs ys, edits = xs ++ .deleteEdge e.id :: ys → ¬ (s.run xs).Shows e →
      ((s.run xs).deleteEdge e.id).toBool = false) : s.keeps e edits = true := by
  rw [keeps_iff]
  intro xs edit ys hsplit
  cases edit with
  | update text => rw [forgets, settings_run, hretains]; rfl
  | move id position => rfl
  | connect c millis => rfl
  | deleteNode n =>
    rw [forgets, Bool.and_eq_false_iff]
    cases ht : e.touches n with
    | true => exact .inl (hspared.node xs n ys hsplit ht)
    | false => exact .inr rfl
  | deleteEdge id =>
    rw [forgets, Bool.and_eq_false_iff]
    by_cases hid : e.id = id
    · subst hid
      exact .inl (hhidden xs ys hsplit (hspared.edge xs ys hsplit))
    · exact .inr (by simpa using hid)

theorem run_nil (s : Session) : s.run [] = s :=
  rfl

theorem run_of_connect {c : Connection} {millis : Nat} {id : String} {later : List Edit}
    (h : s.connect c millis = .ok (id, s')) :
    s.run (.connect c millis :: later) = s'.run later := by
  have hafter : s.after (.connect c millis) = s' :=
    after_of_ok (perform_connect_eq_ok_iff.mpr ⟨id, h⟩)
  rw [← hafter]
  rfl

/-- An edge that is drawn and then kept is remembered. -/
theorem mem_remembers_of_connect {before later : List Edit} {c : Connection} {millis : Nat}
    {id : String} (hconnect : (s.run before).connect c millis = .ok (id, s'))
    (hkeeps : s'.keeps (c.edge id) later = true) :
    c.edge id ∈ s.remembers (before ++ .connect c millis :: later) := by
  have hafter : (s.run before).after (.connect c millis) = s' :=
    after_of_ok (perform_connect_eq_ok_iff.mpr ⟨id, hconnect⟩)
  have hdrawn : (s.run before).drawnBy (.connect c millis) = some (c.edge id) := by
    rw [drawnBy, hconnect]
  rw [remembers_append, remembers, hafter, hdrawn]
  simp [hkeeps]

end Session

/-- **When a drawn edge is back.** In a retaining session an edge was drawn between two ports and
spared since, and after a new text both of its ports are there. Then an edge runs between the ports
exactly if one that does so comes first with its id among the compiled edges and the remembered
ones. This is the drawn edge itself, unless its id was deleted while it was out of sight, or a
compiled edge has its id, or another remembered edge that fits. -/
theorem drawn_edge_back_iff {settings : SessionSettings} (hretains : settings.retainsEdits = true)
    {before later : List Edit} {c : Connection} {millis : Nat} {id : String} {s : Session}
    (hconnect : ((Session.start settings).run before).connect c millis = .ok (id, s))
    (hspared : s.Spares (c.edge id) later)
    {text : String} {d : Diagram} (hview : ((s.run later).update text).view = .compiled d)
    (hports : d.fits (c.edge id) = true) :
    let drawn := (Session.start settings).remembers
      (before ++ .connect c millis :: (later ++ [.update text]))
    ∃ compiled, CompilesTo settings text compiled ∧
      ((∃ e ∈ d.edges, e.Parallel (c.edge id)) ↔
        ∃ e, e.Parallel (c.edge id) ∧ ComesFirst compiled.diagram drawn e) ∧
      ((∀ xs ys, later = xs ++ .deleteEdge id :: ys → ¬ (s.run xs).Shows (c.edge id) →
          ((s.run xs).deleteEdge id).toBool = false) →
        compiled.diagram.hasEdge id = false →
        (∀ e ∈ drawn, d.fits e = true → e.id = id → e = c.edge id) → c.edge id ∈ d.edges) := by
  intro drawn
  have hrun : (Session.start settings).run (before ++ .connect c millis :: later) =
      s.run later := by
    rw [Session.run_append, Session.run_of_connect hconnect]
  have hsettings : s.settings = settings := by
    rw [Session.settings_perform (Session.perform_connect_eq_ok_iff.mpr ⟨id, hconnect⟩)]
    exact Session.settings_run (Session.start settings) before
  rw [← hrun] at hview
  obtain ⟨compiled, hcompiles, hfits, hmem⟩ := mem_edges_update_iff hview
  rw [List.append_assoc, List.cons_append] at hmem
  refine ⟨compiled, hcompiles, ?_, ?_⟩
  · constructor
    · rintro ⟨e, he, hparallel⟩
      exact ⟨e, hparallel, (hmem e).mp he⟩
    · rintro ⟨e, hparallel, hfirst⟩
      exact ⟨e, (hmem e).mpr hfirst, hparallel⟩
  · intro hhidden hcompiled hothers
    -- The edge is still remembered after the new text.
    have hkeeps : s.keeps (c.edge id) (later ++ [.update text]) = true := by
      rw [Session.keeps_append, Bool.and_eq_true]
      constructor
      · exact hspared.keeps (by rw [hsettings, hretains]) hhidden
      · rw [Session.keeps, Session.forgets, Session.settings_run, hsettings, hretains]
        rfl
    have hdrawn : c.edge id ∈ drawn := Session.mem_remembers_of_connect hconnect hkeeps
    -- What is remembered before its first place has other ids, since it is not the edge itself.
    obtain ⟨xs, ys, hsplit, hxs⟩ := List.eq_append_cons_of_mem hdrawn
    refine (hmem (c.edge id)).mpr (.inr ⟨xs, ys, hsplit, ?_, hcompiled, ?_⟩)
    · rw [← hfits, hports]
    · intro x hx hfitsx hid
      have hxmem : x ∈ drawn := by
        rw [hsplit]
        exact List.mem_append_left _ hx
      have hsame : x = c.edge id := hothers x hxmem (by rw [hfits, hfitsx]) hid
      exact hxs (hsame ▸ hx)

/-! ### A table with two columns, and a text in between without one of them -/

def twoColumns : String :=
  "Table a\x7bx i\ny i\x7d"

def oneColumn : String :=
  "Table a{y i}"

/-- A connection of a column of the table with itself. -/
def loopAt (column : String) : Connection :=
  ⟨"public.a", s!"source-{column}", "public.a", s!"target-{column}"⟩

/-- A retaining session that has drawn an edge at one of the columns, which is out of sight now. -/
def oneColumnSession : Session :=
  (Session.start { retainsEdits := true }).run [.update twoColumns,
    .connect (loopAt "x") 5, .update oneColumn]

/-- An edge that is drawn at the other column at a later time is there with the first one. -/
theorem drawn_edge_back_later : ∃ s d e c,
    oneColumnSession.connect (loopAt "y") 6 = .ok ("e-public.a-public.a-6", s) ∧
    (s.update twoColumns).view = .compiled d ∧
    d.fits ((loopAt "y").edge "e-public.a-public.a-6") = true ∧
    CompilesTo { retainsEdits := true } twoColumns c ∧
    e.Parallel ((loopAt "y").edge "e-public.a-public.a-6") ∧ ComesFirst c.diagram
      [(loopAt "x").edge "e-public.a-public.a-5", (loopAt "y").edge "e-public.a-public.a-6"] e := by
  have hid : (oneColumnSession.connect (loopAt "y") 6).toOption.map Prod.fst =
      some "e-public.a-public.a-6" := by
    decide +kernel
  have heval : ((oneColumnSession.run [.connect (loopAt "y") 6]).update
      twoColumns).view.diagram?.map
        (fun d => (d.edges.getLast?, d.fits ((loopAt "y").edge "e-public.a-public.a-6"))) =
      some (some ((loopAt "y").edge "e-public.a-public.a-6"), true) := by
    decide +kernel
  have hdrawn : (Session.start { retainsEdits := true }).remembers
      [.update twoColumns, .connect (loopAt "x") 5, .update oneColumn,
        .connect (loopAt "y") 6, .update twoColumns] =
      [(loopAt "x").edge "e-public.a-public.a-5", (loopAt "y").edge "e-public.a-public.a-6"] := by
    decide +kernel
  obtain ⟨⟨id, s⟩, hconnect, rfl⟩ := exists_ok_of_map_toOption hid
  rw [Session.run_of_connect hconnect, Session.run_nil] at heval
  obtain ⟨d, hview, hseen⟩ := Session.exists_view_of_map_diagram? heval
  obtain ⟨hlast, hports⟩ := Prod.mk.inj hseen
  have hspared : s.Spares ((loopAt "y").edge "e-public.a-public.a-6") [] :=
    Session.spares_of_forall_not_deletes (by simp)
  rw [← Session.run_nil s] at hview
  obtain ⟨c, hcompiles, hiff, -⟩ := drawn_edge_back_iff rfl hconnect hspared hview hports
  obtain ⟨e, hparallel, hfirst⟩ := hiff.mp ⟨_, List.mem_of_getLast? hlast, ⟨rfl, rfl, rfl, rfl⟩⟩
  refine ⟨s, d, e, c, hconnect, hview, hports, hcompiles, hparallel, ?_⟩
  rw [← hdrawn]
  exact hfirst

/-- **A drawn edge can be lost.** It is drawn at the same time by the clock as the edge out of
sight, and gets the same id. -/
theorem drawn_edge_lost : ∃ s d,
    oneColumnSession.connect (loopAt "y") 5 = .ok ("e-public.a-public.a-5", s) ∧
    s.Spares ((loopAt "y").edge "e-public.a-public.a-5") [] ∧
    (s.update twoColumns).view = .compiled d ∧
    d.fits ((loopAt "y").edge "e-public.a-public.a-5") = true ∧
    ¬ ∃ e ∈ d.edges, e.Parallel ((loopAt "y").edge "e-public.a-public.a-5") := by
  have hid : (oneColumnSession.connect (loopAt "y") 5).toOption.map Prod.fst =
      some "e-public.a-public.a-5" := by
    decide +kernel
  have heval : ((oneColumnSession.run [.connect (loopAt "y") 5]).update
      twoColumns).view.diagram?.map (fun d => (d.edges.map Edge.sourceHandle,
        d.fits ((loopAt "y").edge "e-public.a-public.a-5"))) = some (["source-x"], true) := by
    decide +kernel
  obtain ⟨⟨id, s⟩, hconnect, rfl⟩ := exists_ok_of_map_toOption hid
  rw [Session.run_of_connect hconnect, Session.run_nil] at heval
  obtain ⟨d, hview, hseen⟩ := Session.exists_view_of_map_diagram? heval
  obtain ⟨hhandles, hports⟩ := Prod.mk.inj hseen
  have hspared : s.Spares ((loopAt "y").edge "e-public.a-public.a-5") [] :=
    Session.spares_of_forall_not_deletes (by simp)
  refine ⟨s, d, hconnect, hspared, hview, hports, ?_⟩
  rintro ⟨e, he, hparallel⟩
  have hhandle : e.sourceHandle ∈ ["source-x"] := hhandles ▸ List.mem_map_of_mem he
  rw [hparallel.sourceHandle] at hhandle
  revert hhandle
  decide

end SchemaGraph
