import SchemaGraph.Command.Directory
import SchemaGraph.Proofs.Fallible
import SchemaGraph.Proofs.Nesting
import SchemaGraph.Proofs.WrittenJson

/-!
# Verdicts on a text

Linting reports everything that is wrong with a text, and fails when something of it is an error.
Compiling stops at the first error, and does not look at braces apart from the document. They agree
all the same (`lint_and_compile_agree`). The full analysis finds no error exactly when the braces
are in order, the text is a document, and the document compiles
(`Analysis.any_error_full_eq_false_iff`); and then what it warns of is what compiling leaves out
(`Analysis.warnings_full_of_compile`). What is printed of that can be read back
(`Compiled.printable_toJson`).
-/

namespace SchemaGraph

variable {text : String} {dialect : Dialect} {options : CompileOptions}

/-! ### What the full analysis finds -/

/-- Whatever is wrong with the braces of a text is an error. -/
theorem severity_of_mem_balance {d : Diagnostic} (h : d ∈ balance text) : d.severity = .error := by
  rcases List.mem_append.mp h with h | h
  · obtain ⟨line, -, rfl⟩ := List.mem_map.mp h
    rfl
  · split_ifs at h
    · cases h
    · rw [List.mem_singleton.mp h]
      rfl

theorem any_error_balance_eq_false_iff :
    (balance text).any (·.severity == .error) = false ↔ balance text = [] := by
  constructor
  · intro h
    rw [List.eq_nil_iff_forall_not_mem]
    intro d hd
    have := List.any_eq_false.mp h d hd
    simp [severity_of_mem_balance hd] at this
  · intro h
    rw [h]
    rfl

namespace Analysis

theorem diagnostics_full_of_compile {document : Document} {c : Compiled}
    (hparse : Document.parse dialect text = .ok document)
    (hcompile : compile options document = .ok c) :
    (full dialect options).diagnostics text =
      balance text ++ c.warnings.map (·.diagnostic text) := by
  simp only [diagnostics, hparse, hcompile]

/-- **The full analysis finds no error** exactly when the braces are in order, the text is a
document, and the document compiles. -/
theorem any_error_full_eq_false_iff :
    ((full dialect options).diagnostics text).any (·.severity == .error) = false ↔
      balance text = [] ∧ ∃ document c, Document.parse dialect text = .ok document ∧
        compile options document = .ok c := by
  rw [diagnostics, List.any_append, Bool.or_eq_false_iff, any_error_balance_eq_false_iff]
  refine and_congr_right fun _ => ?_
  cases hparse : Document.parse dialect text with
  | error e => simp
  | ok document =>
    cases hcompile : compile options document with
    | error e => simp [hcompile]
    | ok c =>
      have hwarnings : (c.warnings.map (·.diagnostic text)).any (·.severity == .error) = false := by
        rw [List.any_map]
        exact List.any_eq_false.mpr fun w _ => by simp
      simp [hcompile, hwarnings]

/-- What the full analysis warns of is what is left out of the diagram. -/
theorem warnings_full_of_compile (hbalance : balance text = []) {document : Document} {c : Compiled}
    (hparse : Document.parse dialect text = .ok document)
    (hcompile : compile options document = .ok c) :
    (((full dialect options).diagnostics text).filter (·.severity = .warning)).map
      Diagnostic.message = c.warnings.map CompileWarning.message := by
  rw [diagnostics_full_of_compile hparse hcompile, hbalance, List.nil_append,
    List.filter_eq_self.mpr (by simp), List.map_map]
  exact List.map_congr_left fun w _ => w.message_diagnostic text

end Analysis

/-! ### Commands -/

namespace Command

variable {files : Directory} {standardInput input : String} {name : Option String}

/-- A command exits with 0 when it answers, finds no error, and can write what it writes. -/
theorem exit_runIn_eq_zero_iff {command : Command} :
    (command.runIn files standardInput).exit = 0 ↔
      ∃ answer, command.run ⟨some standardInput, files.file?⟩ = .ok answer ∧
        answer.hasErrors = false ∧
        ∀ path contents, answer.written = some (path, contents) →
          (files.locate? path).isSome = true := by
  unfold runIn
  cases hrun : command.run ⟨some standardInput, files.file?⟩ with
  | error f => simp
  | ok answer =>
    obtain ⟨printed, hasErrors, written⟩ := answer
    cases written with
    | none => cases hasErrors <;> simp
    | some target =>
      obtain ⟨path, contents⟩ := target
      cases hlocate : files.locate? path with
      | none => simp [Directory.write?, hlocate]
      | some place => cases hasErrors <;> simp [Directory.write?, hlocate]

theorem printed_runIn_of_run {command : Command} {answer : Answer}
    (h : command.run ⟨some standardInput, files.file?⟩ = .ok answer)
    (hwritten : answer.written = none) :
    (command.runIn files standardInput).printed = answer.printed := by
  unfold runIn
  simp only [h, hwritten]

theorem run_lint_eq_ok_iff {sources : Sources} {answer : Answer} :
    run sources (.lint input name) = .ok answer ↔
      ∃ text known, readInput sources input = .ok text ∧ readDialect name = .ok known ∧
        { printed := String.join
            (((Analysis.full known {}).diagnostics text).map (reportLine input))
          hasErrors := ((Analysis.full known {}).diagnostics text).any (·.severity == .error) }
          = answer := by
  simp only [run, runLint, bind_eq_ok_iff, pure_eq_ok_iff, exists_and_left]

/-- Without further options the default ones are used. -/
theorem run_compile_eq_ok_iff {sources : Sources} {output : Option String} {pretty : Bool}
    {answer : Answer} :
    run sources (.compile input name false none output pretty) = .ok answer ↔
      ∃ text known document c, readInput sources input = .ok text ∧ readDialect name = .ok known ∧
        Document.parse known text = .ok document ∧ SchemaGraph.compile {} document = .ok c ∧
        answerWith output (if pretty then c.toJson.pretty else c.toJson.compact) = answer := by
  simp only [run, runCompile, bind_eq_ok_iff, pure_eq_ok_iff, mapError_eq_ok_iff, readOptions,
    Except.ok.injEq, exists_eq_left', Bool.or_false, exists_and_left]

/-- A text is linted with success when its dialect is known, its braces are in order, it is a
document, and the document compiles. -/
theorem exit_lint_eq_zero_iff : ((Command.lint input name).runIn files standardInput).exit = 0 ↔
    ∃ text known document c, readInput ⟨some standardInput, files.file?⟩ input = .ok text ∧
      readDialect name = .ok known ∧ balance text = [] ∧
      Document.parse known text = .ok document ∧ SchemaGraph.compile {} document = .ok c := by
  rw [exit_runIn_eq_zero_iff]
  constructor
  · rintro ⟨answer, hrun, herrors, -⟩
    obtain ⟨text, known, htext, hknown, rfl⟩ := run_lint_eq_ok_iff.mp hrun
    obtain ⟨hbalance, document, c, hparse, hcompile⟩ :=
      Analysis.any_error_full_eq_false_iff.mp herrors
    exact ⟨text, known, document, c, htext, hknown, hbalance, hparse, hcompile⟩
  · rintro ⟨text, known, document, c, htext, hknown, hbalance, hparse, hcompile⟩
    refine ⟨_, run_lint_eq_ok_iff.mpr ⟨text, known, htext, hknown, rfl⟩, ?_, by simp⟩
    exact Analysis.any_error_full_eq_false_iff.mpr ⟨hbalance, document, c, hparse, hcompile⟩

/-- A text is compiled with success when its dialect is known, it is a document, the document
compiles, and the diagram can be written where it is to be written. -/
theorem exit_compile_eq_zero_iff {output : Option String} {pretty : Bool} :
    ((Command.compile input name false none output pretty).runIn files standardInput).exit = 0 ↔
      (∃ text known document c, readInput ⟨some standardInput, files.file?⟩ input = .ok text ∧
        readDialect name = .ok known ∧ Document.parse known text = .ok document ∧
        SchemaGraph.compile {} document = .ok c) ∧
      ∀ path, output = some path → (files.locate? path).isSome = true := by
  rw [exit_runIn_eq_zero_iff]
  constructor
  · rintro ⟨answer, hrun, -, hwritten⟩
    obtain ⟨text, known, document, c, htext, hknown, hparse, hcompile, rfl⟩ :=
      run_compile_eq_ok_iff.mp hrun
    refine ⟨⟨text, known, document, c, htext, hknown, hparse, hcompile⟩, fun path hpath => ?_⟩
    subst hpath
    exact hwritten path _ rfl
  · rintro ⟨⟨text, known, document, c, htext, hknown, hparse, hcompile⟩, hpath⟩
    refine ⟨_, run_compile_eq_ok_iff.mpr ⟨text, known, document, c, htext, hknown, hparse, hcompile,
      rfl⟩, ?_, ?_⟩
    · cases output <;> rfl
    · intro path contents hwritten
      cases output with
      | none => cases hwritten
      | some path' =>
        cases hwritten
        exact hpath path rfl

end Command

/-- **Linting and compiling give one verdict.** A text is linted with success exactly when its
dialect is known, its braces are in order, it is a document, and the document compiles with the
default options. Then it is compiled with success too, unless the diagram is to be written where it
cannot be, and the value that is printed lists as its warnings the messages of the warnings that
linting reports, in order. If a text is compiled with success and its braces are balanced, it is
linted with success. -/
theorem lint_and_compile_agree (files : Directory) (standardInput input : String)
    (name : Option String) :
    let sources : Sources := ⟨some standardInput, files.file?⟩
    let lint := (Command.lint input name).runIn files standardInput
    let compile (output : Option String) (pretty : Bool) :=
      (Command.compile input name false none output pretty).runIn files standardInput
    (lint.exit = 0 ↔ ∃ text known document c, Command.readInput sources input = .ok text ∧
      Command.readDialect name = .ok known ∧ balance text = [] ∧
      Document.parse known text = .ok document ∧ SchemaGraph.compile {} document = .ok c) ∧
    (lint.exit = 0 → ∀ pretty, (compile none pretty).exit = 0 ∧
      (∀ path, (compile (some path) pretty).exit = 0 ↔ (files.locate? path).isSome = true) ∧
      ∃ text known, Command.readInput sources input = .ok text ∧
        Command.readDialect name = .ok known ∧
        let found := (Analysis.full known {}).diagnostics text
        lint.printed = String.join (found.map (Command.reportLine input)) ∧
        (Json.read? (compile none pretty).printed).bind (·.get? "warnings") =
          some (.array (((found.filter (·.severity = .warning)).map Diagnostic.message).map
            .string))) ∧
    ∀ output pretty text, (compile output pretty).exit = 0 →
      Command.readInput sources input = .ok text →
      Balanced (text.toList.filterMap braceMark?) → lint.exit = 0 := by
  intro sources lint compile
  refine ⟨Command.exit_lint_eq_zero_iff, fun hlint pretty => ?_,
    fun output pretty text hexit htext hbalanced => ?_⟩
  · obtain ⟨text, known, document, c, htext, hknown, hbalance, hparse, hcompile⟩ :=
      Command.exit_lint_eq_zero_iff.mp hlint
    have hverdict : ∃ text known document c, Command.readInput sources input = .ok text ∧
        Command.readDialect name = .ok known ∧ Document.parse known text = .ok document ∧
        SchemaGraph.compile {} document = .ok c :=
      ⟨text, known, document, c, htext, hknown, hparse, hcompile⟩
    refine ⟨Command.exit_compile_eq_zero_iff.mpr ⟨hverdict, by simp⟩, fun path => ?_,
      text, known, htext, hknown, ?_, ?_⟩
    · rw [Command.exit_compile_eq_zero_iff, and_iff_right hverdict]
      simp
    · exact Command.printed_runIn_of_run (Command.run_lint_eq_ok_iff.mpr
        ⟨text, known, htext, hknown, rfl⟩) rfl
    · have hprinted : (compile none pretty).printed =
          (if pretty then c.toJson.pretty else c.toJson.compact) ++ "\n" :=
        Command.printed_runIn_of_run (Command.run_compile_eq_ok_iff.mpr
          ⟨text, known, document, c, htext, hknown, hparse, hcompile, rfl⟩) rfl
      rw [hprinted, c.printable_toJson.read? pretty,
        Analysis.warnings_full_of_compile hbalance hparse hcompile, List.map_map]
      rfl
  · rw [Command.exit_compile_eq_zero_iff] at hexit
    obtain ⟨⟨text', known, document, c, htext', hknown, hparse, hcompile⟩, -⟩ := hexit
    obtain rfl : text = text' := Except.ok.inj (htext.symm.trans htext')
    exact Command.exit_lint_eq_zero_iff.mpr ⟨text, known, document, c, htext, hknown,
      balance_eq_nil_iff.mpr hbalanced, hparse, hcompile⟩

/-- A table, and a reference to one that is not declared. -/
def danglingText : String :=
  "Table t \x7b\n  a\n\x7d\nRef: t.a > u.b\n"

/-- Linting reports the reference on a line of its own, and compiling lists the same words. -/
theorem lint_and_compile_agree_dangling :
    let lint := (Command.lint "-" none).runIn ∅ danglingText
    let compile := (Command.compile "-" none false none none false).runIn ∅ danglingText
    lint.exit = 0 ∧ compile.exit = 0 ∧
    lint.printed =
      "-:4: warning: ref on line 4 points at unknown table public.u and was dropped\n" ∧
    (Json.read? compile.printed).bind (·.get? "warnings") =
      some (.array [.string "ref on line 4 points at unknown table public.u and was dropped"]) := by
  intro lint compile
  have hfound : (Analysis.full .partials {}).diagnostics danglingText =
      [⟨4, ⟨16, 30⟩, .warning,
        "ref on line 4 points at unknown table public.u and was dropped"⟩] := by
    decide +kernel
  have hnone : ((Analysis.full .partials {}).diagnostics danglingText).any
      (·.severity == .error) = false := by
    rw [hfound]
    rfl
  obtain ⟨hbalance, document, c, hparse, hcompile⟩ :=
    Analysis.any_error_full_eq_false_iff.mp hnone
  obtain ⟨hverdict, hagree, -⟩ := lint_and_compile_agree ∅ danglingText "-" none
  have hlint : lint.exit = 0 :=
    hverdict.mpr ⟨_, .partials, document, c, rfl, rfl, hbalance, hparse, hcompile⟩
  obtain ⟨hexit, -, text, known, htext, hknown, hprinted, hwarnings⟩ := hagree hlint false
  cases htext
  cases hknown
  rw [hfound] at hprinted hwarnings
  exact ⟨hlint, hexit, hprinted, hwarnings⟩

end SchemaGraph
