import SchemaGraph.Proofs.Redrawing

/-!
# What a new text forgets

A session is full of what was done to it: its text, its diagram, its diagnostics, the changes by
hand. A new text forgets all of it but the changes by hand, and those only if the session is to
retain them. Two sessions with the same settings and the same changes by hand therefore become one
and the same with a new text (`Session.update_congr`), and what the changes by hand can make a
difference to is the places of nodes and the edges behind the compiled ones
(`update_forgets_history`).
-/

namespace SchemaGraph

namespace Session

variable {s s₁ s₂ : Session}

/-- With a new text, two sessions with the same settings become the same if they remember the same
changes by hand, or retain none. -/
theorem update_congr (hsettings : s₁.settings = s₂.settings)
    (hmoved : s₁.forgetEdits.moved = s₂.forgetEdits.moved)
    (hdrawn : s₁.forgetEdits.drawn = s₂.forgetEdits.drawn) (text : String) :
    s₁.update text = s₂.update text := by
  have hreapply : s₁.forgetEdits.reapply = s₂.forgetEdits.reapply := by
    funext d
    rw [reapply, reapply, hmoved, hdrawn]
  have hview : ∀ r : Reading, r.viewIn s₁.forgetEdits = r.viewIn s₂.forgetEdits := by
    intro r
    cases r <;> simp only [Reading.viewIn, hreapply]
  rw [update_eq, update_eq, adopt, adopt, hview, hmoved, hdrawn, settings_forgetEdits,
    settings_forgetEdits, hsettings]

/-- A session that retains nothing is as good as new when it gets a new text. -/
theorem update_eq_update_of_not_retains (hsettings : s₁.settings = s₂.settings)
    (h : s₁.settings.retainsEdits = false) (text : String) : s₁.update text = s₂.update text := by
  have h' : s₂.settings.retainsEdits = false := hsettings ▸ h
  apply update_congr hsettings
  · rw [forgetEdits_of_not_retains h, forgetEdits_of_not_retains h']
  · rw [forgetEdits_of_not_retains h, forgetEdits_of_not_retains h']

/-! ### What a session shows of a text -/

theorem view_update (s : Session) (text : String) :
    (s.update text).view = (Reading.of s.settings text).viewIn s.forgetEdits := by
  rw [update_eq]
  rfl

/-- Nothing is shown of a blank text, and only of a blank text. -/
theorem view_update_eq_empty_iff {text : String} :
    (s.update text).view = .empty ↔ text.toList.all Text.isBlank = true := by
  rw [view_update, ← reading_eq_blank_iff s.settings]
  cases Reading.of s.settings text <;> simp [Reading.viewIn]

/-- A diagram is shown of a text that is not blank and compiles. -/
theorem exists_view_update_eq_compiled_iff {text : String} :
    (∃ d, (s.update text).view = .compiled d) ↔
      text.toList.all Text.isBlank = false ∧ ∃ c, CompilesTo s.settings text c := by
  simp only [view_update_eq_compiled_iff, reading_eq_compiled_iff]
  constructor
  · rintro ⟨_, c, ⟨hb, hc⟩, -⟩
    exact ⟨hb, c, hc⟩
  · rintro ⟨hb, c, hc⟩
    exact ⟨_, c, ⟨hb, hc⟩, rfl⟩

/-- A failure is shown of every other text. -/
theorem exists_view_update_eq_failed_iff {text : String} :
    (∃ m, (s.update text).view = .failed m) ↔
      text.toList.all Text.isBlank = false ∧ ¬ ∃ c, CompilesTo s.settings text c := by
  have hempty : (s.update text).view = .empty ↔ text.toList.all Text.isBlank = true :=
    view_update_eq_empty_iff
  have hcompiled : (∃ d, (s.update text).view = .compiled d) ↔
      text.toList.all Text.isBlank = false ∧ ∃ c, CompilesTo s.settings text c :=
    exists_view_update_eq_compiled_iff
  cases hv : (s.update text).view with
  | empty =>
    refine iff_of_false (fun ⟨m, hm⟩ => by cases hm) fun h => ?_
    rw [hempty.mp hv] at h
    cases h.1
  | compiled d =>
    refine iff_of_false (fun ⟨m, hm⟩ => by cases hm) fun h => ?_
    exact h.2 (hcompiled.mp ⟨d, hv⟩).2
  | failed m =>
    rw [hv] at hempty hcompiled
    have hb : text.toList.all Text.isBlank = false := by
      rw [← Bool.not_eq_true, ← hempty]
      simp
    refine iff_of_true ⟨m, rfl⟩ ⟨hb, fun h => ?_⟩
    obtain ⟨d, hd⟩ := hcompiled.mpr ⟨hb, h⟩
    cases hd

/-- A diagram that is shown of a text is the compiled one, but for places and drawn edges. -/
theorem compiled_of_view_update {text : String} {d : Diagram}
    (h : (s.update text).view = .compiled d) : ∃ c, CompilesTo s.settings text c ∧
      d.nodes.map Node.unplaced = c.diagram.nodes.map Node.unplaced ∧
      c.diagram.edges <+: d.edges := by
  obtain ⟨c, hread, rfl⟩ := view_update_eq_compiled_iff.mp h
  exact ⟨c, (reading_eq_compiled_iff.mp hread).2, unplaced_reapply _ _, prefix_reapply _ _⟩

/-- The failure that is shown of a text is the same in every session with the same settings. -/
theorem view_update_eq_failed_congr (hsettings : s₁.settings = s₂.settings) {text m : String} :
    (s₁.update text).view = .failed m ↔ (s₂.update text).view = .failed m := by
  rw [view_update, view_update, hsettings]
  cases Reading.of s₂.settings text <;> simp [Reading.viewIn]

end Session

/-- **A new text forgets what was done to the session before.** Whatever was done to two sessions
with the same settings, after a new text they agree in the text, the catalog, the diagnostics and
the warnings. The text alone decides whether nothing, a diagram or a failure is shown, and which
failure. A diagram is the compiled one but for the places of nodes and for drawn edges behind the
compiled ones; and if the sessions retain no changes by hand, they agree in everything. -/
theorem update_forgets_history (settings : SessionSettings) (edits₁ edits₂ : List Edit)
    (text : String) :
    let s₁ := ((Session.start settings).run edits₁).update text
    let s₂ := ((Session.start settings).run edits₂).update text
    (s₁.text = text ∧ s₂.text = text ∧ s₁.catalog = s₂.catalog ∧
      s₁.diagnostics = s₂.diagnostics ∧ s₁.warnings = s₂.warnings) ∧
    (∀ s ∈ [s₁, s₂],
      (s.view = .empty ↔ text.toList.all Text.isBlank = true) ∧
      ((∃ d, s.view = .compiled d) ↔ text.toList.all Text.isBlank = false ∧
        ∃ c, CompilesTo settings text c) ∧
      ((∃ m, s.view = .failed m) ↔ text.toList.all Text.isBlank = false ∧
        ¬ ∃ c, CompilesTo settings text c)) ∧
    (∀ m, s₁.view = .failed m ↔ s₂.view = .failed m) ∧
    (settings.retainsEdits = false → s₁ = s₂) ∧
    (∀ s ∈ [s₁, s₂], ∀ d, s.view = .compiled d →
      ∃ c, CompilesTo settings text c ∧
        d.nodes.map Node.unplaced = c.diagram.nodes.map Node.unplaced ∧
        c.diagram.edges <+: d.edges) := by
  intro s₁ s₂
  have h₁ : ((Session.start settings).run edits₁).settings = settings :=
    Session.settings_run _ edits₁
  have h₂ : ((Session.start settings).run edits₂).settings = settings :=
    Session.settings_run _ edits₂
  have h : ∀ s ∈ [s₁, s₂], ∃ s₀ : Session, s₀.settings = settings ∧ s = s₀.update text := by
    simpa [s₁, s₂] using ⟨⟨_, h₁, rfl⟩, ⟨_, h₂, rfl⟩⟩
  refine ⟨?_, ?_, ?_, ?_, ?_⟩
  · simp only [s₁, s₂, Session.update_eq, h₁, h₂]
    exact ⟨rfl, rfl, rfl, rfl, rfl⟩
  · intro s hs
    obtain ⟨s₀, rfl, rfl⟩ := h s hs
    exact ⟨Session.view_update_eq_empty_iff, Session.exists_view_update_eq_compiled_iff,
      Session.exists_view_update_eq_failed_iff⟩
  · exact fun m => Session.view_update_eq_failed_congr (h₁.trans h₂.symm)
  · intro hr
    exact Session.update_eq_update_of_not_retains (h₁.trans h₂.symm) (by rw [h₁, hr]) text
  · intro s hs d hd
    obtain ⟨s₀, rfl, rfl⟩ := h s hs
    exact Session.compiled_of_view_update hd

end SchemaGraph
