import SchemaGraph.Diagnostic.Basic

/-!
# The balance of braces

Braces are counted as they stand in the text, without regard to what they stand in. A closing brace
that closes nothing is reported where it stands and counts no further; opening braces that are
never closed are reported once.
-/

namespace SchemaGraph

open Text

/-- A count of braces part way through a text. -/
structure BraceCount where
  line : Nat := 1
  /-- The number of open braces. -/
  depth : Nat := 0
  /-- The lines of the closing braces that close nothing, latest first. -/
  stray : List Nat := []
  deriving DecidableEq, Repr

namespace BraceCount

/-- Go on with one character. -/
def step (b : BraceCount) (c : Char) : BraceCount :=
  if c = '\n' then { b with line := b.line + 1 }
  else if c = '\x7b' then { b with depth := b.depth + 1 }
  else if c = '\x7d' then
    if b.depth = 0 then { b with stray := b.line :: b.stray } else { b with depth := b.depth - 1 }
  else b

/-- The count at the end of a text. -/
def ofText (text : String) : BraceCount :=
  text.toList.foldl step {}

end BraceCount

/-- The wording for a closing brace that closes nothing. -/
def unexpectedClose : String := "unexpected closing brace"

/-- The wording for opening braces that are never closed. -/
def unmatchedOpen : String := "unmatched opening brace"

/-- What is wrong with the braces of a text. -/
def balance (text : String) : List Diagnostic :=
  let count := BraceCount.ofText text
  let ranges := lineRanges text
  count.stray.reverse.map (Diagnostic.onLineOf ranges · .error unexpectedClose)
    ++ if count.depth = 0 then [] else [.atStart .error unmatchedOpen]

end SchemaGraph
