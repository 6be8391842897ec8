import SchemaGraph.Command.Arguments
import SchemaGraph.Json.Diagram
import SchemaGraph.Json.Reader
import SchemaGraph.Json.Settings
import SchemaGraph.Json.Writer

/-!
# Commands

There are three commands: one compiles a document to a diagram, one reports what is wrong with a
document, and one lists suggestions. What a command does depends only on its arguments, the
standard input and the files that it reads; it either answers, or fails for one reason.
-/

namespace SchemaGraph

/-- Something to do. An input is the path of a file, or a dash for the standard input. -/
inductive Command where
  | compile (input : String) (dialect : Option String) (strict : Bool) (config : Option String)
      (output : Option String) (pretty : Bool)
  | lint (input : String) (dialect : Option String)
  | complete (input typed : String) (explicit : Bool)
  deriving DecidableEq, Repr

/-- What a command can read. A file that is not there, or is no text, has no contents. -/
structure Sources where
  standardInput? : Option String
  file? : String → Option String

/-- What a command prints, whether it finds an error, and what it writes to a file. -/
structure Answer where
  printed : String := ""
  hasErrors : Bool := false
  /-- A path, and the contents to write there. -/
  written : Option (String × String) := none
  deriving DecidableEq, Repr

/-- What keeps a command from answering. -/
inductive Failure where
  | standardInput
  | unreadableFile (path : String)
  | unknownDialect (name : String)
  | unreadableConfig (path : String)
  | invalidConfig (path : String)
  | parse (error : ParseError)
  | compile (error : CompileError)
  | unwritableFile (path : String)
  deriving DecidableEq, Repr

namespace Failure

/-- The reason for a failure in one line. -/
def headline : Failure → String
  | .standardInput => "Failed to read from stdin"
  | .unreadableFile path => "Failed to read file: " ++ path
  | .unknownDialect name => s!"Unknown dialect: {name} (expected dbml or dbmlv2)"
  | .unreadableConfig path => "Failed to read config: " ++ path
  | .invalidConfig path => "Invalid config: " ++ path
  | .parse _ => "Parse failed"
  | .compile _ => "Compile failed"
  | .unwritableFile path => "Failed to write to: " ++ path

/-- What lies behind a failure, from the nearest cause on. -/
def causes : Failure → List String
  | .parse (.scan e) => [(ParseError.scan e).message, e.message]
  | .parse e => [e.message]
  | .compile e => [e.message]
  | _ => []

/-- A cause with its number, if it has one. Further lines of it are indented to the same column. -/
def indented (number : Option Nat) (cause : String) : String :=
  let margin := if number.isSome then "       " else "    "
  let start := match number with
    | some n => "    " ++ toString n ++ ": "
    | none => "    "
  start ++ String.ofList
    (cause.toList.flatMap fun c => if c = '\n' then c :: margin.toList else [c])

/-- The report of a failure. Causes are numbered where there are several. -/
def report (f : Failure) : String :=
  let causes := match f.causes with
    | [] => ""
    | [cause] => "\n\nCaused by:\n" ++ indented none cause
    | several =>
      "\n\nCaused by:\n"
        ++ "\n".intercalate (several.zipIdx.map fun (cause, n) => indented (some n) cause)
  "Error: " ++ f.headline ++ causes ++ "\n"

end Failure

namespace Command

/-- The options that every command takes. -/
def sharedOptions : List OptionSpec :=
  [⟨"verbose", some 'v', false⟩, ⟨"quiet", some 'q', false⟩]

/-- The option for the dialect. -/
def dialectOption : OptionSpec := ⟨"dialect", some 'd', true⟩

/-- The options of a command besides the shared ones. -/
def options? : String → Option (List OptionSpec)
  | "compile" => some [dialectOption, ⟨"strict", none, false⟩, ⟨"config", some 'c', true⟩,
      ⟨"output", some 'o', true⟩, ⟨"pretty", none, false⟩]
  | "lint" => some [dialectOption]
  | "complete" => some [⟨"explicit", none, false⟩]
  | _ => none

/-- The command with a name and sorted arguments. -/
def ofSorted? (name : String) (a : Arguments) : Option Command :=
  match name, a.operands.reverse with
  | "compile", operands =>
    if operands.length ≤ 1 then
      some (.compile (operands.headD "-") (a.value? "dialect") (a.has "strict") (a.value? "config")
        (a.value? "output") (a.has "pretty"))
    else none
  | "lint", operands =>
    if operands.length ≤ 1 then some (.lint (operands.headD "-") (a.value? "dialect")) else none
  | "complete", [input] => some (.complete input "" (a.has "explicit"))
  | "complete", [input, typed] => some (.complete input typed (a.has "explicit"))
  | _, _ => none

/-- The command that arguments ask for. Shared options can stand before its name. -/
def ofArguments? (arguments : List String) : Option Command := do
  let leading := arguments.takeWhile (!Arguments.isPlain ·)
  let first ← Arguments.sort sharedOptions leading
  match arguments.drop leading.length with
  | [] => none
  | name :: rest =>
    let specs := sharedOptions ++ (← options? name)
    let sorted ← Arguments.sortFrom specs (rest.length + 1) first rest
    ofSorted? name sorted

/-- The text of an input. -/
def readInput (sources : Sources) (input : String) : Except Failure String :=
  if input = "-" then
    match sources.standardInput? with
    | some text => .ok text
    | none => .error .standardInput
  else
    match sources.file? input with
    | some text => .ok text
    | none => .error (.unreadableFile input)

/-- The dialect of a name, or the default one. -/
def readDialect : Option String → Except Failure Dialect
  | none => .ok .partials
  | some name =>
    match Dialect.ofName? name with
    | some dialect => .ok dialect
    | none => .error (.unknownDialect name)

/-- The options in a file, or the default ones. -/
def readOptions (sources : Sources) : Option String → Except Failure CompileOptions
  | none => .ok {}
  | some path =>
    match sources.file? path with
    | none => .error (.unreadableConfig path)
    | some text =>
      match (Json.read? text).bind CompileOptions.ofJson? with
      | some options => .ok options
      | none => .error (.invalidConfig path)

/-- The answer that a text is: it is printed with a final newline, or written without one. -/
def answerWith (output : Option String) (contents : String) : Answer :=
  match output with
  | some path => { written := some (path, contents) }
  | none => { printed := contents ++ "\n" }

/-- Compile a document, and print or write its diagram. -/
def runCompile (sources : Sources) (input : String) (dialect : Option String) (strict : Bool)
    (config output : Option String) (pretty : Bool) : Except Failure Answer := do
  let text ← readInput sources input
  let dialect ← readDialect dialect
  let options ← readOptions sources config
  let document ← (Document.parse dialect text).mapError .parse
  let compiled ←
    (SchemaGraph.compile { options with strict := options.strict || strict } document).mapError
      .compile
  return answerWith output (if pretty then compiled.toJson.pretty else compiled.toJson.compact)

/-- The line that reports a diagnostic of an input. -/
def reportLine (input : String) (d : Diagnostic) : String :=
  s!"{input}:{d.line}: " ++ d.severity.name ++ ": " ++ d.message ++ "\n"

/-- Report what is wrong with a document, one diagnostic a line. -/
def runLint (sources : Sources) (input : String) (dialect : Option String) :
    Except Failure Answer := do
  let text ← readInput sources input
  let dialect ← readDialect dialect
  let found := Analysis.diagnostics text (.full dialect {})
  return {
    printed := String.join (found.map (reportLine input))
    hasErrors := found.any (·.severity == .error) }

/-- List suggestions, one a line. -/
def runComplete (sources : Sources) (input typed : String) (explicit : Bool) :
    Except Failure Answer := do
  let text ← readInput sources input
  let found := (Catalog.outline text).suggest typed explicit
  return {
    printed := String.join (found.map fun s =>
      "\t".intercalate ([s.label, s.kind.name] ++ s.info.toList) ++ "\n") }

/-- Do what a command asks for. -/
def run (sources : Sources) : Command → Except Failure Answer
  | .compile input dialect strict config output pretty =>
    runCompile sources input dialect strict config output pretty
  | .lint input dialect => runLint sources input dialect
  | .complete input typed explicit => runComplete sources input typed explicit

/-- The files that a command may read. -/
def paths : Command → List String
  | .compile input _ _ config _ _ => [input].filter (· ≠ "-") ++ config.toList
  | .lint input _ | .complete input _ _ => [input].filter (· ≠ "-")

/-- Whether a command reads the standard input. -/
def readsStandardInput : Command → Bool
  | .compile input .. | .lint input _ | .complete input _ _ => input = "-"

end Command

end SchemaGraph
