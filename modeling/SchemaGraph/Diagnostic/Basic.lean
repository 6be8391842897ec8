import SchemaGraph.Text.Lines

/-!
# Diagnostics

What is wrong with a text, for an editor to show. A diagnostic is about a line, or about the text
as a whole, which it marks at its start.
-/

namespace SchemaGraph

open Text

/-- How bad a problem is. -/
inductive Severity where
  | error
  | warning
  deriving DecidableEq, Repr

/-- The name of a severity. -/
def Severity.name : Severity → String
  | .error => "error"
  | .warning => "warning"

/-- A problem of a text. -/
structure Diagnostic where
  line : Nat
  range : ByteRange
  severity : Severity
  message : String
  deriving DecidableEq, Repr

namespace Diagnostic

/-- The range that a problem of the whole text marks. -/
def noRange : ByteRange := ⟨0, 0⟩

/-- A problem on one of the lines with given ranges, counted from 1. A line that is not there marks
nothing. -/
def onLineOf (ranges : List ByteRange) (line : Nat) (severity : Severity) (message : String) :
    Diagnostic :=
  ⟨max line 1, (nthRange? ranges line).getD noRange, severity, message⟩

/-- A problem on a line of a text. -/
def onLine (text : String) (line : Nat) (severity : Severity) (message : String) : Diagnostic :=
  onLineOf (lineRanges text) line severity message

/-- A problem of the whole text. -/
def atStart (severity : Severity) (message : String) : Diagnostic :=
  ⟨1, noRange, severity, message⟩

end Diagnostic

end SchemaGraph
