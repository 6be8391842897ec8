import SchemaGraph.Catalog.Basic
import SchemaGraph.Text.Blank
import SchemaGraph.Text.Lines
import SchemaGraph.Text.Word

/-!
# The outline of a text

While a document is being typed it is seldom complete. Its outline is found line by line, without
regard to comments, settings or nesting: a line that begins like a table opens that table, a
closing brace on a line of its own closes it, and any other line of an open table that begins with
a name lists a column.
-/

namespace SchemaGraph

open Text

/-- What the first line of a table says. -/
structure Heading where
  schema : Option String
  name : String
  shorthand : Option String
  deriving DecidableEq, Repr

/-- The name that the table of a heading goes by across the document. -/
def Heading.id (h : Heading) : String :=
  qualify h.schema h.name

/-- The name at the start of a line, in double quotes or bare, and the rest of the line. -/
def leadingName? (line : List Char) : Option (String × List Char) :=
  match line with
  | '"' :: rest =>
    if '"' ∈ rest then
      some (String.ofList (rest.takeWhile (· != '"')), (rest.dropWhile (· != '"')).drop 1)
    else none
  | _ =>
    let word := line.takeWhile isWordChar
    if word.isEmpty then none else some (String.ofList word, line.dropWhile isWordChar)

/-- What follows a keyword and at least one blank, from the first character that is not blank. -/
def afterKeyword? (keyword : String) (line : List Char) : Option (List Char) :=
  let size := keyword.length
  if sameWord (String.ofList (line.take size)) keyword then
    match line.drop size with
    | c :: rest => if isBlank c then some (trimStart rest) else none
    | [] => none
  else none

/-- The heading of a line without blanks at its ends, if it begins with one. What follows the name
counts only as far as it is an alias. -/
def heading? (line : List Char) : Option Heading := do
  let (first, rest) ← leadingName? (← afterKeyword? "table" line)
  let (schema, name, rest) ← match rest with
    | '.' :: rest => (leadingName? rest).map fun (name, rest) => (some first, name, rest)
    | rest => some (none, first, rest)
  let shorthand := (afterKeyword? "as" (trimStart rest)).bind leadingName?
  return ⟨schema, name, shorthand.map Prod.fst⟩

/-- An outline part way through a text. -/
structure Outline where
  catalog : Catalog := {}
  /-- The table that is open. -/
  current : Option String := none
  deriving DecidableEq

namespace Outline

/-- Open the table of a heading. It has no columns yet, even where its name was listed before. -/
def openTable (o : Outline) (h : Heading) : Outline where
  catalog :=
    (match h.shorthand with
      | some shorthand => o.catalog.addAlias shorthand h.id
      | none => o.catalog).addTable h.id []
  current := some h.id

/-- Go on with one line without blanks at its ends. -/
def addLine (o : Outline) (line : List Char) : Outline :=
  match heading? line with
  | some h => o.openTable h
  | none =>
    if line = ['\x7d'] then { o with current := none }
    else match o.current, leadingName? line with
      | some table, some (column, _) => { o with catalog := o.catalog.addColumn table column }
      | _, _ => o

end Outline

/-- The catalog of a text, as far as its outline shows. -/
def Catalog.outline (text : String) : Catalog :=
  ((lines text.toList).foldl (fun o line => o.addLine (trim line)) ({} : Outline)).catalog
    |>.resolveAliases

end SchemaGraph
