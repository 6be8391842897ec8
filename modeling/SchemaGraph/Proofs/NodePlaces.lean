import SchemaGraph.Proofs.ShownDiagrams

/-!
# Where nodes stand

Where a node stands is a matter of what was done in the run of edits. It is the place to which the
node was moved last (`Session.LastMove`), unless the session has forgotten that since: a session
forgets the place of a node when the node is deleted, and, unless it retains changes by hand, when
it gets a new text. A node that was not moved stands at the place of the grid that its table has in
the order of declaration (`node_stands_where_moved`). The history is told here without looking into
the session for what it has stored; `Session.get?_moved_run` says that the two agree.
-/

namespace SchemaGraph

namespace Session

variable {s s' : Session} {id : String} {position : Position}

/-! ### The history of a place -/

/-- Whether an edit has a say in where a node stands: it moves the node, or makes the session forget
where it was moved. -/
def replaces (s : Session) (id : String) : Edit → Bool
  | .update _ => !s.settings.retainsEdits
  | .move moved position => (s.move moved position).toBool && moved == id
  | .deleteNode deleted => (s.deleteNode deleted).toBool && deleted == id
  | .connect .. | .deleteEdge _ => false

/-- Whether no edit of a run has a say in where a node stands. -/
def leavesPlace (s : Session) (id : String) : List Edit → Bool
  | [] => true
  | edit :: later => !s.replaces id edit && (s.after edit).leavesPlace id later

/-- **The last move of a node in a run**: it succeeds, and no later edit moves the node or makes the
session forget where it was moved. -/
def LastMove (s : Session) (id : String) (position : Position) (edits : List Edit) : Prop :=
  ∃ before later s', edits = before ++ .move id position :: later ∧
    (s.run before).move id position = .ok s' ∧ s'.leavesPlace id later = true

/-- An edit that fails has no say in where a node stands. -/
theorem replaces_of_error {edit : Edit} {x : EditError} (h : s.perform edit = .error x)
    (id : String) : s.replaces id edit = false := by
  cases edit with
  | update text => cases h
  | move moved position =>
    have h : s.move moved position = .error x := h
    rw [replaces, h]
    rfl
  | connect c millis => rfl
  | deleteNode deleted =>
    have h : s.deleteNode deleted = .error x := h
    rw [replaces, h]
    rfl
  | deleteEdge deleted => rfl

theorem lastMove_cons {edit : Edit} {edits : List Edit} :
    s.LastMove id position (edit :: edits) ↔
      (edit = .move id position ∧ s.perform edit = .ok (s.after edit) ∧
        (s.after edit).leavesPlace id edits = true) ∨
      (s.after edit).LastMove id position edits := by
  constructor
  · rintro ⟨before, later, s', hsplit, hmove, hleaves⟩
    cases before with
    | nil =>
      obtain ⟨rfl, rfl⟩ := List.cons.inj hsplit
      have hafter : s.after (.move id position) = s' := after_of_ok hmove
      rw [hafter]
      exact .inl ⟨rfl, hmove, hleaves⟩
    | cons x before =>
      obtain ⟨rfl, rfl⟩ := List.cons.inj hsplit
      exact .inr ⟨before, later, s', rfl, hmove, hleaves⟩
  · rintro (⟨rfl, hmove, hleaves⟩ | ⟨before, later, s', rfl, hmove, hleaves⟩)
    · exact ⟨[], edits, _, rfl, hmove, hleaves⟩
    · exact ⟨edit :: before, later, s', rfl, hmove, hleaves⟩

/-! ### The history and the session -/

/-- What one edit does to the place that a session has stored for a node. -/
theorem get?_moved_after (edit : Edit) : (s.after edit).moved.get? id = some position ↔
    (edit = .move id position ∧ s.perform edit = .ok (s.after edit)) ∨
      (s.moved.get? id = some position ∧ s.replaces id edit = false) := by
  cases h : s.perform edit with
  | error x => simp [after_of_error h, replaces_of_error h]
  | ok s' =>
    rw [after_of_ok h]
    cases edit with
    | update text =>
      cases h
      have hmoved : (s.update text).moved = s.forgetEdits.moved := by
        rw [update_eq]
        rfl
      cases hr : s.settings.retainsEdits with
      | true => simp [hmoved, forgetEdits_of_retains hr, replaces, hr]
      | false =>
        have hnone : (∅ : OrderedMap Position).get? id = none := rfl
        simp [hmoved, forgetEdits_of_not_retains hr, replaces, hr, hnone]
    | move moved place =>
      have hok : s.move moved place = .ok s' := h
      obtain ⟨_, -, -, rfl⟩ := move_eq_ok_iff.mp hok
      by_cases hid : moved = id
      · subst hid
        simp [replaces, hok, Except.toBool]
      · simp [replaces, hid, Ne.symm hid]
    | connect c millis =>
      obtain ⟨_, h⟩ := perform_connect_eq_ok_iff.mp h
      obtain ⟨_, -, -, -, -, rfl⟩ := connect_eq_ok_iff.mp h
      simp [replaces]
    | deleteNode deleted =>
      have hok : s.deleteNode deleted = .ok s' := h
      obtain ⟨_, -, -, rfl⟩ := deleteNode_eq_ok_iff.mp hok
      by_cases hid : deleted = id
      · subst hid
        simp [replaces, hok, Except.toBool]
      · simp [replaces, hid, Ne.symm hid]
    | deleteEdge deleted =>
      obtain ⟨_, -, -, rfl⟩ := deleteEdge_eq_ok_iff.mp h
      simp [replaces]

/-- **What a session has stored is what its history tells**: the place of the last move in a run,
or, if no edit of the run has a say in it, the place stored before. -/
theorem get?_moved_run {edits : List Edit} : (s.run edits).moved.get? id = some position ↔
    s.LastMove id position edits ∨
      (s.moved.get? id = some position ∧ s.leavesPlace id edits = true) := by
  induction edits generalizing s with
  | nil => simp [run, leavesPlace, LastMove]
  | cons edit edits ih =>
    have hrun : s.run (edit :: edits) = (s.after edit).run edits := rfl
    rw [hrun, ih, get?_moved_after, lastMove_cons, leavesPlace, Bool.and_eq_true,
      Bool.not_eq_true']
    constructor
    · rintro (hlast | ⟨⟨hedit, hok⟩ | ⟨hstored, hedit⟩, hleaves⟩)
      · exact .inl (.inr hlast)
      · exact .inl (.inl ⟨hedit, hok, hleaves⟩)
      · exact .inr ⟨hstored, hedit, hleaves⟩
    · rintro ((⟨hedit, hok, hleaves⟩ | hlast) | ⟨hstored, hedit, hleaves⟩)
      · exact .inr ⟨.inl ⟨hedit, hok⟩, hleaves⟩
      · exact .inl hlast
      · exact .inr ⟨.inr ⟨hstored, hedit⟩, hleaves⟩

theorem get?_moved_start_run {settings : SessionSettings} {edits : List Edit} :
    ((start settings).run edits).moved.get? id = some position ↔
      (start settings).LastMove id position edits := by
  have hstart : (start settings).moved.get? id = none := rfl
  rw [get?_moved_run, hstart]
  simp

end Session

/-! ### The grid -/

/-- A compiled node stands at the place of the grid that its table has in the order of
declaration. -/
theorem exists_table_of_mem_nodes {options : CompileOptions} {document : Document} {c : Compiled}
    (h : compile options document = .ok c) {n : Node} (hn : n ∈ c.diagram.nodes) :
    ∃ i t, document.tables[i]? = some t ∧ t.id = n.id ∧ n.position = options.grid.position i := by
  obtain ⟨known, tables, outcomes, -, htables, -, rfl⟩ := compile_eq_ok_iff.mp h
  obtain ⟨⟨e, i⟩, he, rfl⟩ := List.mem_map.mp hn
  have hget : tables[i]? = some e := List.mk_mem_zipIdx_iff_getElem?.mp he
  refine ⟨i, e.table, ?_, rfl, rfl⟩
  rw [← expandAll_tables htables, List.getElem?_map, hget]
  rfl

/-- **Where a node stands is determined by the run of edits.** A node of a diagram that is shown
after a run belongs to a table of the last text of the run. It stands where the last move of it that
succeeded and was not forgotten has put it; if there is no such move, it stands at the place of the
grid that its table has in the order of declaration. -/
theorem node_stands_where_moved (settings : SessionSettings) (edits : List Edit) {d : Diagram}
    (h : ((Session.start settings).run edits).view = .compiled d) :
    ∃ text document, lastText? edits = some text ∧
      Document.parse settings.dialect text = .ok document ∧
      ∀ n ∈ d.nodes, ∃ i t, document.tables[i]? = some t ∧ t.id = n.id ∧
        (∀ position, (Session.start settings).LastMove n.id position edits →
          n.position = position) ∧
        ((∀ position, ¬ (Session.start settings).LastMove n.id position edits) →
          n.position = settings.compile.grid.position i) := by
  obtain ⟨text, c, htext, ⟨document, hparse, hcompile⟩, hd⟩ := follows_of_view h
  refine ⟨text, document, htext, hparse, fun n hn => ?_⟩
  obtain ⟨n₀, hn₀, hsame, hposition⟩ := hd.nodes n hn
  obtain ⟨i, t, ht, hid, hgrid⟩ := exists_table_of_mem_nodes hcompile hn₀
  have hids : n.id = n₀.id := congrArg Prod.fst hsame
  refine ⟨i, t, ht, hid.trans hids.symm, ?_, ?_⟩
  · intro position hlast
    rw [hposition, Session.get?_moved_start_run.mpr hlast]
    rfl
  · intro hnone
    have hstored : ((Session.start settings).run edits).moved.get? n.id = none :=
      Option.eq_none_iff_forall_ne_some.mpr fun position hs =>
        hnone position (Session.get?_moved_start_run.mp hs)
    rw [hposition, hstored, ← hgrid]
    rfl

/-! ### A run with a node that is out of sight for a while -/

/-- Three tables, one below the other. -/
def threeTables : String :=
  "Table a{x i}\nTable b{x i}\nTable c{x i}"

/-- After the second table is moved, the text is broken, blank, and one without that table, before
it is what it was; in the end the first table is deleted. -/
def roundabout : List Edit :=
  [.update "Table b\x7b", .update "", .update "Table a{x i}", .deleteNode "public.a",
    .update threeTables, .deleteNode "public.a"]

/-- The moved node stands where it was moved to, and the last node at the third place of the grid,
though it is the second node now. -/
theorem node_stands_where_moved_roundabout :
    let edits : List Edit := .update threeTables :: .move "public.b" ⟨7, 9⟩ :: roundabout
    ∃ d, ((Session.start { retainsEdits := true }).run edits).view = .compiled d ∧
      d.nodes.map Node.id = ["public.b", "public.c"] ∧
      ∀ n ∈ d.nodes, (n.id = "public.b" → n.position = ⟨7, 9⟩) ∧
        (n.id = "public.c" → n.position = Grid.position {} 2) := by
  intro edits
  have heval : ((Session.start { retainsEdits := true }).run edits).view.diagram?.map
      (·.nodes.map Node.id) = some ["public.b", "public.c"] := by
    decide +kernel
  have hmoved : (((Session.start { retainsEdits := true }).run [.update threeTables]).move
      "public.b" ⟨7, 9⟩).toOption.map (·.leavesPlace "public.b" roundabout) = some true := by
    decide +kernel
  have htables : (Document.parse .partials threeTables).toOption.map (·.tables.map Table.id) =
      some ["public.a", "public.b", "public.c"] := by
    decide +kernel
  obtain ⟨d, hview, hids⟩ := Session.exists_view_of_map_diagram? heval
  obtain ⟨s, hmove, hleaves⟩ := exists_ok_of_map_toOption hmoved
  obtain ⟨document₀, hparse₀, htables⟩ := exists_ok_of_map_toOption htables
  obtain ⟨text, document, htext, hparse, hnodes⟩ := node_stands_where_moved _ _ hview
  obtain rfl : threeTables = text := Option.some.inj htext
  obtain rfl : document₀ = document := by
    rw [hparse₀] at hparse
    exact Except.ok.inj hparse
  refine ⟨d, hview, hids, fun n hn => ?_⟩
  obtain ⟨i, t, ht, hid, hlast, hnone⟩ := hnodes n hn
  constructor
  · intro hb
    rw [hb] at hlast
    exact hlast _ ⟨[.update threeTables], roundabout, s, rfl, hmove, hleaves⟩
  · intro hc
    -- nothing moves the last table, which is the third one
    rw [hc] at hid hnone
    have hi : i = 2 := by
      have hget : ["public.a", "public.b", "public.c"][i]? = some "public.c" := by
        rw [← htables, List.getElem?_map, ht, ← hid]
        rfl
      obtain _ | _ | _ | i := i
      · exact absurd hget (by decide)
      · exact absurd hget (by decide)
      · rfl
      · cases hget
    rw [← hi]
    refine hnone fun position => ?_
    rintro ⟨before, later, _, hsplit, -⟩
    have hmem : Edit.move "public.c" position ∈ edits := by
      rw [hsplit]
      exact List.mem_append_right _ List.mem_cons_self
    simp [edits, roundabout] at hmem

end SchemaGraph
