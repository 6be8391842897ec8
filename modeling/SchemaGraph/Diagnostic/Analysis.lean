import SchemaGraph.Catalog.Outline
import SchemaGraph.Compile.Compiled
import SchemaGraph.Diagnostic.Balance
import SchemaGraph.Grammar.Declaration

/-!
# Analysing a text

An editor asks of a text which tables it lists and what is wrong with it. The quick analysis
answers from the outline and the braces alone, whatever the text. The full one reads and compiles
the text; where that fails it reports why, and lists what the outline shows.
-/

namespace SchemaGraph

/-- The diagnostic of an error in the text. -/
def ParseError.diagnostic (text : String) (e : ParseError) : Diagnostic :=
  .onLine text e.line .error e.message

@[simp]
theorem ParseError.severity_diagnostic (text : String) (e : ParseError) :
    (e.diagnostic text).severity = .error :=
  rfl

@[simp]
theorem ParseError.message_diagnostic (text : String) (e : ParseError) :
    (e.diagnostic text).message = e.message :=
  rfl

/-- The diagnostic of an error in the document. Some errors are about no line in particular. -/
def CompileError.diagnostic (text : String) (e : CompileError) : Diagnostic :=
  match e with
  | .compositeArity line _ _ | .aliasConflict _ _ _ line => .onLine text line .error e.message
  | .unknownPartial .. | .duplicateTable _ => .atStart .error e.message

@[simp]
theorem CompileError.severity_diagnostic (text : String) (e : CompileError) :
    (e.diagnostic text).severity = .error := by
  cases e <;> rfl

@[simp]
theorem CompileError.message_diagnostic (text : String) (e : CompileError) :
    (e.diagnostic text).message = e.message := by
  cases e <;> rfl

/-- The diagnostic of a warning. -/
def CompileWarning.diagnostic (text : String) (w : CompileWarning) : Diagnostic :=
  .onLine text w.line .warning w.message

@[simp]
theorem CompileWarning.severity_diagnostic (text : String) (w : CompileWarning) :
    (w.diagnostic text).severity = .warning :=
  rfl

@[simp]
theorem CompileWarning.message_diagnostic (text : String) (w : CompileWarning) :
    (w.diagnostic text).message = w.message :=
  rfl

/-- The catalog of a diagram: its nodes, then the aliases of tables. -/
def Catalog.ofDiagram (d : Diagram) (tables : List Table) : Catalog :=
  let nodes := d.nodes.foldl (fun c n => c.addTable n.id (n.columns.map NodeColumn.name)) empty
  let aliased := tables.foldl (fun c t => (t.shorthand.map (c.addAlias · t.id)).getD c) nodes
  aliased.resolveAliases

/-- A way to analyse a text. -/
inductive Analysis where
  | quick
  | full (dialect : Dialect) (options : CompileOptions)
  deriving DecidableEq, Repr

namespace Analysis

/-- The catalog of a text. -/
def catalog (text : String) : Analysis → Catalog
  | .quick => .outline text
  | .full dialect options =>
    match Document.parse dialect text with
    | .error _ => .outline text
    | .ok document =>
      match compile options document with
      | .error _ => .outline text
      | .ok compiled => .ofDiagram compiled.diagram document.tables

/-- What is wrong with a text: first its braces. -/
def diagnostics (text : String) : Analysis → List Diagnostic
  | .quick => balance text
  | .full dialect options =>
    balance text ++
      match Document.parse dialect text with
      | .error e => [e.diagnostic text]
      | .ok document =>
        match compile options document with
        | .error e => [e.diagnostic text]
        | .ok compiled => compiled.warnings.map (·.diagnostic text)

end Analysis

end SchemaGraph
