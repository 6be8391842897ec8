import SchemaGraph.Proofs.Readers
import SchemaGraph.Proofs.Scanning
import SchemaGraph.Proofs.UpdateForgets

/-!
# What a session reports

A session reports problems of its text as it goes along, and does not read a blank text at all. The
full analysis reads and compiles every text, blank or not, and keeps nothing. They report the same
problems in the same order (`session_reports_analysis`): a blank text is a document in which nothing
is declared (`parse_of_blank`), and of every other text the session reports what the reading of the
text came to.
-/

namespace SchemaGraph

/-! ### Blank texts -/

/-- Blank characters leave a scan in the gap in which it is. -/
theorem foldlM_step_of_blank {cs : List Char} (h : cs.all Text.isBlank = true) (line : Nat)
    (found : List Lexeme) :
    ∃ line', cs.foldlM Scan.step ⟨line, .gap, found⟩ = .ok ⟨line', .gap, found⟩ := by
  induction cs generalizing line with
  | nil => exact ⟨line, rfl⟩
  | cons c cs ih =>
    obtain ⟨hc, hcs⟩ := Bool.and_eq_true_iff.mp (List.all_cons ▸ h)
    have hstep : Scan.step ⟨line, .gap, found⟩ c = .ok (Scan.pass ⟨line, .gap, found⟩ c) := by
      rw [Scan.step, Scan.read, Scan.readGap, if_pos hc]
      rfl
    have hpass : ∃ line', Scan.pass ⟨line, .gap, found⟩ c = ⟨line', .gap, found⟩ := by
      unfold Scan.pass
      split_ifs
      · exact ⟨line + 1, rfl⟩
      · exact ⟨line, rfl⟩
    obtain ⟨line₁, hline₁⟩ := hpass
    obtain ⟨line₂, hline₂⟩ := ih hcs line₁
    refine ⟨line₂, ?_⟩
    rw [List.foldlM_cons, hstep, hline₁]
    exact hline₂

theorem scan_of_blank {text : String} (h : text.toList.all Text.isBlank = true) :
    ∃ line, scan text = .ok [⟨.endOfText, line⟩] := by
  obtain ⟨line, hfold⟩ := foldlM_step_of_blank h 1 []
  refine ⟨line, ?_⟩
  change text.toList.foldlM Scan.step Scan.start = _ at hfold
  rw [scan, hfold]
  rfl

/-- A blank text is a document in which nothing is declared. -/
theorem parse_of_blank (dialect : Dialect) {text : String}
    (h : text.toList.all Text.isBlank = true) :
    Document.parse dialect text = .ok (.ofDeclarations []) := by
  obtain ⟨line, hscan⟩ := scan_of_blank h
  have hstop : Reader.Rounds (fun c => !c.at? .endOfText) (Reader.declaration dialect)
      ⟨[⟨.endOfText, line⟩], 1⟩ [] ⟨[⟨.endOfText, line⟩], 1⟩ := .stop rfl
  exact Document.parse_eq_ok_iff.mpr ⟨_, [], _, hscan, Reader.manyWhile_of_rounds hstop, rfl⟩

/-- Nothing is reported of a document in which nothing is declared. -/
theorem compile_of_nothing (options : CompileOptions) :
    compile options (.ofDeclarations []) = .ok ⟨⟨[], []⟩, []⟩ := rfl

/-! ### Failures -/

/-- A text is no document, or does not compile, for the reason given. -/
def FailsWith (settings : SessionSettings) (text m : String) : Prop :=
  (∃ e, Document.parse settings.dialect text = .error e ∧ e.message = m) ∨
    ∃ document e, Document.parse settings.dialect text = .ok document ∧
      compile settings.compile document = .error e ∧ e.message = m

variable {settings : SessionSettings} {text m : String}

/-- The problem of a text that fails is an error with the reason for its message. -/
theorem severity_and_message_of_broken {problem : Diagnostic}
    (h : Reading.of settings text = .broken problem m) :
    problem.severity = .error ∧ problem.message = m := by
  unfold Reading.of at h
  split_ifs at h
  split at h
  · next e _ =>
    cases h
    exact ⟨e.severity_diagnostic text, e.message_diagnostic text⟩
  · split at h
    · next e _ =>
      cases h
      exact ⟨e.severity_diagnostic text, e.message_diagnostic text⟩
    · cases h

/-- A text is found broken when it fails, for the same reason. -/
theorem failsWith_iff :
    FailsWith settings text m ↔ ∃ problem, Reading.of settings text = .broken problem m := by
  unfold FailsWith Reading.of
  by_cases hb : text.toList.all Text.isBlank = true
  · simp [hb, parse_of_blank settings.dialect hb, compile_of_nothing]
  · rw [if_neg hb]
    cases hp : Document.parse settings.dialect text with
    | error e => simp
    | ok document => cases hc : compile settings.compile document <;> simp [hc]

/-! ### Reports -/

/-- The full analysis reports what the reading of a text comes to. -/
theorem diagnostics_full_eq (settings : SessionSettings) (text : String) :
    (Analysis.full settings.dialect settings.compile).diagnostics text =
      (Reading.of settings text).diagnostics text := by
  unfold Analysis.diagnostics Reading.of Reading.diagnostics
  by_cases hb : text.toList.all Text.isBlank = true
  · simp only [hb, parse_of_blank settings.dialect hb, compile_of_nothing, if_true, List.map_nil]
  · rw [if_neg hb]
    cases hp : Document.parse settings.dialect text with
    | error e => simp only [hp]
    | ok document => cases hc : compile settings.compile document <;> simp only [hp, hc]

namespace Session

variable {s : Session}

theorem diagnostics_update (s : Session) (text : String) :
    (s.update text).diagnostics = (Reading.of s.settings text).diagnostics text := by
  rw [update_eq]
  rfl

theorem warnings_update (s : Session) (text : String) :
    (s.update text).warnings = (Reading.of s.settings text).warnings := by
  rw [update_eq]
  rfl

/-- A session shows a failure of the texts that fail, for the same reason. -/
theorem view_update_eq_failed_iff :
    (s.update text).view = .failed m ↔ FailsWith s.settings text m := by
  rw [failsWith_iff, view_update]
  cases Reading.of s.settings text <;> simp [Reading.viewIn]

/-- Of a text that fails its braces are reported, and then one error that gives the reason. -/
theorem diagnostics_update_of_failed (h : (s.update text).view = .failed m) :
    ∃ problem, (s.update text).diagnostics = balance text ++ [problem] ∧
      problem.severity = .error ∧ problem.message = m := by
  obtain ⟨problem, hread⟩ := failsWith_iff.mp (view_update_eq_failed_iff.mp h)
  refine ⟨problem, ?_, severity_and_message_of_broken hread⟩
  rw [diagnostics_update, hread]
  rfl

/-- Of every other text its braces are reported, and then the warnings, in order. -/
theorem diagnostics_update_of_not_failed (h : ∀ m, (s.update text).view ≠ .failed m) :
    (s.update text).diagnostics =
      balance text ++ (s.update text).warnings.map (·.diagnostic text) := by
  rw [diagnostics_update, warnings_update]
  cases hread : Reading.of s.settings text with
  | blank => rfl
  | compiled c => rfl
  | broken problem m =>
    exact absurd (view_update_eq_failed_iff.mpr (failsWith_iff.mpr ⟨problem, hread⟩)) (h m)

end Session

/-- **A session reports what the full analysis of its text reports.** Whatever was done to a session
before, after a new text it reports the same problems in the same order. It shows a failure exactly
when the text is no document or does not compile, for the same reason, and then reports the braces
of the text and one error with that reason; of every other text it reports the braces and its
warnings, in order. -/
theorem session_reports_analysis (settings : SessionSettings) (edits : List Edit) (text : String) :
    let s := ((Session.start settings).run edits).update text
    s.diagnostics = (Analysis.full settings.dialect settings.compile).diagnostics text ∧
    (∀ m, s.view = .failed m ↔ FailsWith settings text m) ∧
    (∀ m, s.view = .failed m → ∃ problem, s.diagnostics = balance text ++ [problem] ∧
      problem.severity = .error ∧ problem.message = m) ∧
    ((∀ m, s.view ≠ .failed m) →
      s.diagnostics = balance text ++ s.warnings.map (·.diagnostic text)) := by
  intro s
  have hsettings : ((Session.start settings).run edits).settings = settings :=
    Session.settings_run _ edits
  refine ⟨?_, fun m => ?_, fun m => Session.diagnostics_update_of_failed,
    Session.diagnostics_update_of_not_failed⟩
  · rw [diagnostics_full_eq, Session.diagnostics_update, hsettings]
  · rw [Session.view_update_eq_failed_iff, hsettings]

/-- Behind a text that fails, a reference to a table that is not declared is reported as a warning,
and a table that is not closed by its brace and by one error. -/
theorem session_reports_analysis_unclosed :
    let s := (Session.start {}).run [.update "Table \x7b", .update "Table t \x7b a \x7d"]
    (s.update "Table t \x7b a \x7d\nRef: t.a > u.b").diagnostics =
        [⟨2, ⟨14, 28⟩, .warning,
          "ref on line 2 points at unknown table public.u and was dropped"⟩] ∧
      (∀ m, (s.update "Table t \x7b a \x7d\nRef: t.a > u.b").view ≠ .failed m) ∧
    (s.update "Table t \x7b").diagnostics =
        [⟨1, ⟨0, 0⟩, .error, "unmatched opening brace"⟩,
          ⟨1, ⟨0, 9⟩, .error, "line 1: unexpected token Eof, expected \x7d"⟩] ∧
      (s.update "Table t \x7b").view =
        .failed "line 1: unexpected token Eof, expected \x7d" := by
  intro s
  have hdangling : (Analysis.full .partials {}).diagnostics "Table t \x7b a \x7d\nRef: t.a > u.b" =
      [⟨2, ⟨14, 28⟩, .warning,
        "ref on line 2 points at unknown table public.u and was dropped"⟩] := by
    decide +kernel
  have hunclosed : (Analysis.full .partials {}).diagnostics "Table t \x7b" =
      [⟨1, ⟨0, 0⟩, .error, "unmatched opening brace"⟩,
        ⟨1, ⟨0, 9⟩, .error, "line 1: unexpected token Eof, expected \x7d"⟩] := by
    decide +kernel
  have hparse : Document.parse .partials "Table t \x7b" =
      .error (.unexpected .endOfText (.mark "\x7d") 1) := by
    decide +kernel
  obtain ⟨hsame, -, hfailed, -⟩ := session_reports_analysis {}
    [.update "Table \x7b", .update "Table t \x7b a \x7d"] "Table t \x7b a \x7d\nRef: t.a > u.b"
  obtain ⟨hsame', hview, -⟩ := session_reports_analysis {}
    [.update "Table \x7b", .update "Table t \x7b a \x7d"] "Table t \x7b"
  refine ⟨hsame.trans hdangling, fun m hm => ?_, hsame'.trans hunclosed,
    (hview _).mpr (.inl ⟨_, hparse, rfl⟩)⟩
  -- a failure would be reported last, and as an error
  obtain ⟨problem, hproblem, hseverity, -⟩ := hfailed m hm
  rw [hsame.trans hdangling] at hproblem
  have hlast := congrArg List.getLast? hproblem
  rw [List.getLast?_concat] at hlast
  cases hlast
  cases hseverity

end SchemaGraph
