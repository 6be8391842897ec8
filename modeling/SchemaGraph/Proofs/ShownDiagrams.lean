import SchemaGraph.Proofs.Catalogs
import SchemaGraph.Proofs.Remembering
import SchemaGraph.Proofs.SoundRuns

/-!
# What a shown diagram consists of

A session keeps what the user did in two places: in the diagram that it shows, and among the changes
by hand that it remembers. The two agree (`Diagram.Follows`). Each node that is shown is one of
those that the text compiles to, at the place to which the session remembers it was moved, or else
where it was compiled; each edge that is shown is compiled or remembered. Every edit keeps this up,
whatever it does to the diagram (`Session.followed_run`), and the text meant is the last one that
the run of edits has set (`Session.lastText?_of_view`).
-/

namespace SchemaGraph

/-! ### The text of a run -/

/-- The text that an edit sets. -/
def Edit.newText? : Edit → Option String
  | .update text => some text
  | .move .. | .connect .. | .deleteNode _ | .deleteEdge _ => none

/-- The last text that a run of edits sets. -/
def lastText? (edits : List Edit) : Option String :=
  (edits.filterMap Edit.newText?).getLast?

theorem lastText?_append_singleton (edits : List Edit) (edit : Edit) :
    lastText? (edits ++ [edit]) = edit.newText?.or (lastText? edits) := by
  unfold lastText?
  rw [List.filterMap_append, List.getLast?_append]
  cases h : edit.newText? <;> simp [h]

/-- What a diagram consists of: nodes that were compiled, at the places to which they were moved or
where they were compiled, and edges that were compiled or drawn. -/
structure Diagram.Follows (d compiled : Diagram) (moved : OrderedMap Position)
    (drawn : List Edge) : Prop where
  nodes : ∀ n ∈ d.nodes, ∃ n₀ ∈ compiled.nodes, n.unplaced = n₀.unplaced ∧
    n.position = (moved.get? n.id).getD n₀.position
  edges : ∀ e ∈ d.edges, e ∈ compiled.edges ∨ e ∈ drawn

namespace Diagram

variable {d compiled : Diagram} {moved : OrderedMap Position} {drawn : List Edge}

/-! ### What is done to a diagram -/

/-- Of several nodes with different ids, the one that is put elsewhere is told by its id. -/
theorem mem_placeNode {id : String} {position : Position} {ns : List Node}
    (hdistinct : (ns.map Node.id).Nodup) {n : Node} (h : n ∈ placeNode id position ns) :
    (n.id ≠ id ∧ n ∈ ns) ∨ ∃ n₀ ∈ ns, n₀.id = id ∧ n = { n₀ with position } := by
  induction ns with
  | nil => cases h
  | cons first rest ih =>
    obtain ⟨hfirst, hrest⟩ := List.nodup_cons.mp hdistinct
    by_cases hid : first.id = id
    · rw [placeNode, if_pos hid] at h
      rcases List.mem_cons.mp h with rfl | h
      · exact .inr ⟨first, List.mem_cons_self, hid, rfl⟩
      · refine .inl ⟨fun hn => hfirst ?_, List.mem_cons_of_mem _ h⟩
        rw [hid, ← hn]
        exact List.mem_map_of_mem h
    · rw [placeNode, if_neg hid] at h
      rcases List.mem_cons.mp h with rfl | h
      · exact .inl ⟨hid, List.mem_cons_self⟩
      · rcases ih hrest h with ⟨hn, hmem⟩ | ⟨n₀, hmem, hn₀⟩
        · exact .inl ⟨hn, List.mem_cons_of_mem _ hmem⟩
        · exact .inr ⟨n₀, List.mem_cons_of_mem _ hmem, hn₀⟩

theorem Follows.place (h : d.Follows compiled moved drawn) (hd : d.Sound) (id : String)
    (position : Position) :
    (d.place id position).Follows compiled (moved.insert id position) drawn where
  nodes := by
    intro n hn
    rcases mem_placeNode hd.nodes_distinct hn with ⟨hne, hmem⟩ | ⟨n₁, hmem, hid, rfl⟩
    · obtain ⟨n₀, hn₀, hsame, hposition⟩ := h.nodes n hmem
      refine ⟨n₀, hn₀, hsame, ?_⟩
      rw [OrderedMap.get?_insert, if_neg hne, hposition]
    · obtain ⟨n₀, hn₀, hsame, -⟩ := h.nodes n₁ hmem
      refine ⟨n₀, hn₀, hsame, ?_⟩
      rw [OrderedMap.get?_insert, if_pos hid]
      rfl
  edges := h.edges

theorem Follows.addEdge (h : d.Follows compiled moved drawn) (e : Edge) :
    (d.addEdge e).Follows compiled moved (drawn ++ [e]) where
  nodes := h.nodes
  edges := by
    intro x hx
    rcases List.mem_append.mp hx with hx | hx
    · exact (h.edges x hx).imp_right (List.mem_append_left _)
    · exact .inr (List.mem_append_right _ hx)

/-- What is left of the edges of a diagram does not end at a node that was removed. -/
theorem mem_edges_removeNode {id : String} {e : Edge} (h : e ∈ (d.removeNode id).edges) :
    e ∈ d.edges ∧ e.source ≠ id ∧ e.target ≠ id := by
  obtain ⟨hmem, hcarried⟩ := List.mem_filter.mp h
  obtain ⟨hsource, htarget⟩ := carries_iff.mp hcarried
  simp only [List.mem_map, List.mem_filter, bne_iff_ne] at hsource htarget
  obtain ⟨n, ⟨-, hn⟩, hns⟩ := hsource
  obtain ⟨m, ⟨-, hm⟩, hmt⟩ := htarget
  exact ⟨hmem, hns ▸ hn, hmt ▸ hm⟩

theorem Follows.removeNode (h : d.Follows compiled moved drawn) (id : String) :
    (d.removeNode id).Follows compiled (moved.erase id) (drawn.filter (!·.touches id)) where
  nodes := by
    intro n hn
    obtain ⟨hmem, hne⟩ := List.mem_filter.mp hn
    obtain ⟨n₀, hn₀, hsame, hposition⟩ := h.nodes n hmem
    refine ⟨n₀, hn₀, hsame, ?_⟩
    rw [OrderedMap.get?_erase, if_neg (by simpa using hne), hposition]
  edges := by
    intro e he
    obtain ⟨hmem, hends⟩ := mem_edges_removeNode he
    refine (h.edges e hmem).imp_right fun hdrawn => List.mem_filter.mpr ⟨hdrawn, ?_⟩
    simp [Edge.touches, hends]

theorem Follows.removeEdge (h : d.Follows compiled moved drawn) (id : String) :
    (d.removeEdge id).Follows compiled moved (drawn.filter (·.id != id)) where
  nodes := h.nodes
  edges := by
    intro e he
    obtain ⟨hmem, hne⟩ := List.mem_filter.mp he
    exact (h.edges e hmem).imp_right fun hdrawn => List.mem_filter.mpr ⟨hdrawn, hne⟩

end Diagram

namespace Session

variable {s s' : Session}

/-- A new diagram with the changes by hand consists of just these. -/
theorem follows_reapply (s : Session) (d : Diagram) : (s.reapply d).Follows d s.moved s.drawn where
  nodes := by
    intro n hn
    rw [reapply, Diagram.nodes_redrawAll] at hn
    obtain ⟨n₀, hn₀, rfl⟩ := List.mem_map.mp hn
    exact ⟨n₀, hn₀, rfl, rfl⟩
  edges := by
    intro e he
    rcases mem_reapply_iff.mp he with he | ⟨xs, ys, hdrawn, -⟩
    · exact .inl he
    · refine .inr ?_
      rw [hdrawn]
      exact List.mem_append_right _ List.mem_cons_self

/-! ### What a session shows -/

/-- A diagram that a session shows consists of what the text of the session compiles to and of the
changes by hand that the session remembers. -/
def Followed (s : Session) : Prop :=
  ∀ d, s.view = .compiled d → ∃ c, CompilesTo s.settings s.text c ∧
    d.Follows c.diagram s.moved s.drawn

theorem followed_of_view {d : Diagram} {c : Compiled} (hview : s.view = .compiled d)
    (hc : CompilesTo s.settings s.text c) (hd : d.Follows c.diagram s.moved s.drawn) :
    s.Followed := by
  intro d' h
  rw [hview] at h
  cases h
  exact ⟨c, hc, hd⟩

theorem followed_update (s : Session) (text : String) : (s.update text).Followed := by
  intro d hview
  obtain ⟨c, hread, rfl⟩ := view_update_eq_compiled_iff.mp hview
  refine ⟨c, ?_, ?_⟩
  · rw [settings_update, update_eq]
    exact (reading_eq_compiled_iff.mp hread).2
  · rw [update_eq]
    exact follows_reapply s.forgetEdits c.diagram

/-- Every edit keeps the diagram and the changes by hand in step. -/
theorem followed_perform {edit : Edit} (hsound : s.Sound) (hs : s.Followed)
    (h : s.perform edit = .ok s') : s'.Followed := by
  cases edit with
  | update text =>
    cases h
    exact followed_update s text
  | move id position =>
    obtain ⟨d, hview, -, rfl⟩ := move_eq_ok_iff.mp h
    obtain ⟨c, hc, hd⟩ := hs d hview
    exact followed_of_view rfl hc (hd.place (hsound d hview) id position)
  | connect connection millis =>
    obtain ⟨id, h⟩ := perform_connect_eq_ok_iff.mp h
    obtain ⟨d, hview, -, -, -, rfl⟩ := connect_eq_ok_iff.mp h
    obtain ⟨c, hc, hd⟩ := hs d hview
    exact followed_of_view rfl hc (hd.addEdge (connection.edge id))
  | deleteNode id =>
    obtain ⟨d, hview, -, rfl⟩ := deleteNode_eq_ok_iff.mp h
    obtain ⟨c, hc, hd⟩ := hs d hview
    exact followed_of_view rfl hc (hd.removeNode id)
  | deleteEdge id =>
    obtain ⟨d, hview, -, rfl⟩ := deleteEdge_eq_ok_iff.mp h
    obtain ⟨c, hc, hd⟩ := hs d hview
    exact followed_of_view rfl hc (hd.removeEdge id)

/-- In every run the diagram and the changes by hand are in step. -/
theorem followed_run (settings : SessionSettings) (edits : List Edit) :
    ((start settings).run edits).Followed := by
  have hstart : (start settings).Followed := by
    intro d h
    cases h
  have hrun := run_invariant (P := fun s => s.Sound ∧ s.Followed) ⟨sound_start settings, hstart⟩
    (fun _ _ _ hs h => ⟨sound_perform hs.1 h, followed_perform hs.1 hs.2 h⟩) edits
  exact hrun.2

/-! ### The text that is shown -/

/-- What one edit does to the text. -/
theorem text_after (s : Session) (edit : Edit) :
    (s.after edit).text = edit.newText?.getD s.text := by
  cases h : s.perform edit with
  | error x =>
    rw [after_of_error h]
    cases edit with
    | update text => cases h
    | _ => rfl
  | ok s' =>
    rw [after_of_ok h]
    cases edit with
    | update text =>
      cases h
      rw [update_eq]
      rfl
    | move id position =>
      obtain ⟨_, -, -, rfl⟩ := move_eq_ok_iff.mp h
      rfl
    | connect c millis =>
      obtain ⟨id, h⟩ := perform_connect_eq_ok_iff.mp h
      obtain ⟨_, -, -, -, -, rfl⟩ := connect_eq_ok_iff.mp h
      rfl
    | deleteNode id =>
      obtain ⟨_, -, -, rfl⟩ := deleteNode_eq_ok_iff.mp h
      rfl
    | deleteEdge id =>
      obtain ⟨_, -, -, rfl⟩ := deleteEdge_eq_ok_iff.mp h
      rfl

/-- Changes by hand do not make a diagram where there is none. -/
theorem exists_view_of_after {edit : Edit} {d : Diagram} (hedit : edit.newText? = none)
    (h : (s.after edit).view = .compiled d) : ∃ d', s.view = .compiled d' := by
  cases hp : s.perform edit with
  | error x =>
    rw [after_of_error hp] at h
    exact ⟨d, h⟩
  | ok s' =>
    cases edit with
    | update text => cases hedit
    | move id position =>
      obtain ⟨d', hview, -⟩ := move_eq_ok_iff.mp hp
      exact ⟨d', hview⟩
    | connect c millis =>
      obtain ⟨id, hp⟩ := perform_connect_eq_ok_iff.mp hp
      obtain ⟨d', hview, -⟩ := connect_eq_ok_iff.mp hp
      exact ⟨d', hview⟩
    | deleteNode id =>
      obtain ⟨d', hview, -⟩ := deleteNode_eq_ok_iff.mp hp
      exact ⟨d', hview⟩
    | deleteEdge id =>
      obtain ⟨d', hview, -⟩ := deleteEdge_eq_ok_iff.mp hp
      exact ⟨d', hview⟩

/-- A session that shows a diagram shows it of the last text of its run. -/
theorem lastText?_of_view {settings : SessionSettings} {edits : List Edit} {d : Diagram}
    (h : ((start settings).run edits).view = .compiled d) :
    lastText? edits = some ((start settings).run edits).text := by
  induction edits using List.reverseRecOn generalizing d with
  | nil => cases h
  | append_singleton edits edit ih =>
    have hrun : (start settings).run (edits ++ [edit]) = ((start settings).run edits).after edit :=
      run_append _ edits [edit]
    rw [hrun] at h ⊢
    rw [lastText?_append_singleton, text_after]
    cases hedit : edit.newText? with
    | some text => rfl
    | none =>
      obtain ⟨d', hview⟩ := exists_view_of_after hedit h
      exact ih hview

end Session

/-- **What a run shows**: a diagram that is shown after a run of edits consists of what the last
text of the run compiles to and of the changes by hand that the session remembers. -/
theorem follows_of_view {settings : SessionSettings} {edits : List Edit} {d : Diagram}
    (h : ((Session.start settings).run edits).view = .compiled d) :
    ∃ text c, lastText? edits = some text ∧ CompilesTo settings text c ∧
      d.Follows c.diagram ((Session.start settings).run edits).moved
        ((Session.start settings).run edits).drawn := by
  obtain ⟨c, hc, hd⟩ := Session.followed_run settings edits d h
  rw [Session.settings_run] at hc
  exact ⟨_, c, Session.lastText?_of_view h, hc, hd⟩

end SchemaGraph
