import SchemaGraph.Diagnostic.Analysis
import SchemaGraph.Proofs.ReportedLines

/-!
# Where diagnostics point

An editor marks what a diagnostic says is wrong by a range of bytes. The line of a diagnostic comes
from the count of braces, from a scan, from a reader or from a compilation; its range comes from
the lines of the text. They fit: a diagnostic is on a line that the text has and marks characters of
that line, unless it is about the text as a whole and marks its start.
-/

namespace SchemaGraph

open Text

/-- A diagnostic of the full analysis that is about a text as a whole: some opening brace is never
closed, a marker has no partial in strict mode, or two tables go by one name. -/
inductive Diagnostic.AboutWhole (dialect : Dialect) (options : CompileOptions) (text : String) :
    Diagnostic → Prop
  | unmatchedOpen (h : (BraceCount.ofText text).depth ≠ 0) :
    AboutWhole dialect options text (.atStart .error unmatchedOpen)
  | unknownPartial {d : Document} {table marker : String}
    (hparse : Document.parse dialect text = .ok d)
    (h : compile options d = .error (.unknownPartial table marker)) :
    AboutWhole dialect options text
      (.atStart .error (CompileError.unknownPartial table marker).message)
  | duplicateTable {d : Document} {table : String}
    (hparse : Document.parse dialect text = .ok d)
    (h : compile options d = .error (.duplicateTable table)) :
    AboutWhole dialect options text (.atStart .error (CompileError.duplicateTable table).message)

namespace Diagnostic

variable {text : String} {d : Diagnostic}

/-- **A diagnostic points to a line**: the text has the line, and what is marked is the range of
that line, which marks characters of it. -/
structure PointsToLine (text : String) (d : Diagnostic) : Prop where
  hasLine : HasLine text d.line
  range : lineRange? text d.line = some d.range
  inLine : d.range.InLine text d.line

/-- **A diagnostic points into a text**: it is on a line that the text has, and either it is about
the text as a whole and stands at its start, or it points to its line. -/
def PointsInto (dialect : Dialect) (options : CompileOptions) (text : String) (d : Diagnostic) :
    Prop :=
  HasLine text d.line ∧
    ((d.AboutWhole dialect options text ∧ d.line = 1 ∧ d.range = ⟨0, 0⟩) ∨ d.PointsToLine text)

theorem PointsToLine.pointsInto {dialect : Dialect} {options : CompileOptions}
    (h : d.PointsToLine text) : d.PointsInto dialect options text :=
  ⟨h.hasLine, .inr h⟩

/-- Every text has a first line. -/
theorem AboutWhole.pointsInto {dialect : Dialect} {options : CompileOptions}
    (h : d.AboutWhole dialect options text) : d.PointsInto dialect options text := by
  have hfirst : HasLine text 1 := ⟨Nat.le_refl 1, Nat.le_add_left 1 _⟩
  have hstart : d.line = 1 ∧ d.range = ⟨0, 0⟩ := by
    cases h with
    | unmatchedOpen | unknownPartial | duplicateTable => exact ⟨rfl, rfl⟩
  refine ⟨?_, .inl ⟨h, hstart⟩⟩
  rw [hstart.1]
  exact hfirst

theorem pointsToLine_onLine {line : Nat} (h : HasLine text line) (severity : Severity)
    (message : String) : PointsToLine text (onLine text line severity message) := by
  obtain ⟨r, hr, hin⟩ := exists_lineRange?_of_hasLine h
  have hline : (onLine text line severity message).line = line := Nat.max_eq_left h.1
  have hrange : (onLine text line severity message).range = r := by
    show (lineRange? text line).getD noRange = r
    rw [hr]
    rfl
  refine ⟨?_, ?_, ?_⟩
  · rw [hline]
    exact h
  · rw [hline, hrange]
    exact hr
  · rw [hline, hrange]
    exact hin

variable {dialect : Dialect} {options : CompileOptions}

/-- What is wrong with the braces is on a line of the text, or somewhere in it. -/
theorem pointsInto_of_mem_balance (h : d ∈ balance text) : d.PointsInto dialect options text := by
  unfold balance at h
  rcases List.mem_append.mp h with h | h
  · obtain ⟨line, hline, rfl⟩ := List.mem_map.mp h
    apply PointsToLine.pointsInto
    apply pointsToLine_onLine
    exact BraceCount.hasLine_of_mem_stray (List.mem_reverse.mp hline)
  · by_cases hdepth : (BraceCount.ofText text).depth = 0
    · rw [if_pos hdepth] at h
      cases h
    · rw [if_neg hdepth] at h
      rw [List.mem_singleton.mp h]
      exact (AboutWhole.unmatchedOpen hdepth).pointsInto

/-- What keeps a text from being a document is on a line of the text. -/
theorem pointsInto_of_parse_eq_error {e : ParseError}
    (h : Document.parse dialect text = .error e) :
    (e.diagnostic text).PointsInto dialect options text := by
  apply PointsToLine.pointsInto
  apply pointsToLine_onLine
  exact Document.hasLine_of_parse_eq_error h

variable {document : Document} (hparse : Document.parse dialect text = .ok document)

include hparse

/-- What keeps a document from being compiled is about one of its lines, or no line in
particular. -/
theorem pointsInto_of_compile_eq_error {e : CompileError}
    (h : compile options document = .error e) :
    (e.diagnostic text).PointsInto dialect options text := by
  cases e with
  | unknownPartial table marker => exact (AboutWhole.unknownPartial hparse h).pointsInto
  | duplicateTable table => exact (AboutWhole.duplicateTable hparse h).pointsInto
  | compositeArity | aliasConflict =>
    apply PointsToLine.pointsInto
    apply pointsToLine_onLine
    exact Document.hasLine_of_mem_keptLines hparse (CompileError.line?_mem_keptLines h rfl)

/-- A warning is about a line of the document. -/
theorem pointsInto_of_mem_warnings {compiled : Compiled} {w : CompileWarning}
    (h : compile options document = .ok compiled) (hw : w ∈ compiled.warnings) :
    (w.diagnostic text).PointsInto dialect options text := by
  apply PointsToLine.pointsInto
  apply pointsToLine_onLine
  exact Document.hasLine_of_mem_keptLines hparse (CompileWarning.line_mem_keptLines h hw)

end Diagnostic

/-- **Every diagnostic points into the text**, and so do the errors of a text that is no document
and the lines that a document keeps. -/
theorem Analysis.diagnostics_point_into (dialect : Dialect) (options : CompileOptions)
    (text : String) :
    (∀ d ∈ (full dialect options).diagnostics text, d.PointsInto dialect options text) ∧
    (∀ e, Document.parse dialect text = .error e → HasLine text e.line) ∧
    (∀ document, Document.parse dialect text = .ok document →
      ∀ l ∈ document.keptLines, HasLine text l) := by
  refine ⟨fun d hd => ?_, fun e => Document.hasLine_of_parse_eq_error, fun document hparse l =>
    Document.hasLine_of_mem_keptLines hparse⟩
  rcases List.mem_append.mp hd with hd | hd
  · exact Diagnostic.pointsInto_of_mem_balance hd
  · cases hparse : Document.parse dialect text with
    | error e =>
      simp only [hparse, List.mem_singleton] at hd
      rw [hd]
      exact Diagnostic.pointsInto_of_parse_eq_error hparse
    | ok document =>
      cases hcompile : compile options document with
      | error e =>
        simp only [hparse, hcompile, List.mem_singleton] at hd
        rw [hd]
        exact Diagnostic.pointsInto_of_compile_eq_error hparse hcompile
      | ok compiled =>
        simp only [hparse, hcompile] at hd
        obtain ⟨w, hw, rfl⟩ := List.mem_map.mp hd
        exact Diagnostic.pointsInto_of_mem_warnings hparse hcompile hw

/-- A document with a reference to a table that is not declared, behind letters of two bytes and
before a return. -/
def strayBehindUmlauts : String :=
  "// äöü\nTable a \x7b id int \x7d\nRef: a.id > b.id\r\n"

theorem Analysis.diagnostics_point_into_strayBehindUmlauts :
    ∃ d ∈ (full .partials {}).diagnostics strayBehindUmlauts, d.line = 3 ∧ d.range = ⟨29, 45⟩ ∧
      d.range.InLine strayBehindUmlauts 3 := by
  have hlist : ((full .partials {}).diagnostics strayBehindUmlauts).map
      (fun d => (d.line, d.range)) = [(3, ⟨29, 45⟩)] := by
    decide +kernel
  have hmem : (3, ⟨29, 45⟩) ∈ ((full .partials {}).diagnostics strayBehindUmlauts).map
      (fun d => (d.line, d.range)) := by
    rw [hlist]
    exact List.mem_singleton_self _
  obtain ⟨d, hd, hplace⟩ := List.mem_map.mp hmem
  obtain ⟨hline, hrange⟩ := Prod.mk.inj hplace
  obtain ⟨hpoints, -, -⟩ := diagnostics_point_into .partials {} strayBehindUmlauts
  obtain ⟨-, ⟨-, hfirst, -⟩ | hpoints⟩ := hpoints d hd
  · rw [hline] at hfirst
    cases hfirst
  · refine ⟨d, hd, hline, hrange, ?_⟩
    rw [← hline]
    exact hpoints.inLine

end SchemaGraph
