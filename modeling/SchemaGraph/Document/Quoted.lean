import SchemaGraph.Document.Written
import SchemaGraph.Grammar.Setting

/-!
# Texts in single quotes

A document holds texts that are written in single quotes: notes, and the names of indexes. The note
of a table has two places, a line of its body and the settings of its heading, where it counts as
long as there is none in the body. Texts that come by way of general settings, in the heading of a
table, behind a value of an enumeration or behind an index, are read without the single quotes at
their ends (`Document.readBack`), and so is a text that begins or ends with a single quote of its
own.
-/

namespace SchemaGraph

/-- The index whose name is without the single quotes at its ends. -/
def Index.unquoted (i : Index) : Index :=
  { i with name := i.name.map unquote }

/-- The value whose note is without the single quotes at its ends. -/
def EnumValue.unquoted (v : EnumValue) : EnumValue :=
  { v with note := v.note.map unquote }

/-- The enumeration with the notes of its values without the single quotes at their ends. -/
def Enumeration.unquoted (e : Enumeration) : Enumeration :=
  { e with values := e.values.map EnumValue.unquoted }

/-- The partial with the names of its indexes without the single quotes at their ends. -/
def Partial.unquoted (p : Partial) : Partial :=
  { p with indexes := p.indexes.map Index.unquoted }

namespace Table

/-- The table with the names of its indexes without the single quotes at their ends. -/
def unquoted (t : Table) : Table :=
  { t with indexes := t.indexes.map Index.unquoted }

/-- The lines of a table with a note in its heading, if there is one. -/
def headedLines (note : Option String) (t : Table) : List (List Piece) :=
  blockLines
    (.keyword "Table" :: (qualifiedPieces t.schema t.name
      ++ (t.shorthand.map fun s => [.keyword "as", .name s]).getD []
      ++ settingPieces (noteSetting "note" note)))
    (t.items.map TableItem.pieces ++ Index.allLines t.indexes ++ noteLine t.note)

theorem headedLines_none (t : Table) : t.headedLines none = t.lines := by
  rw [headedLines, lines, show settingPieces (noteSetting "note" none) = [] from rfl,
    List.append_nil, List.cons_append]

/-- The table that has a note in its heading, which counts if there is none in its body. -/
def headed (note : Option String) (t : Table) : Table :=
  { t with note := t.note.or note }

end Table

namespace Document

/-- The lines of a document in which tables have notes in their headings. -/
def headedLines (headings : Table → Option String) (d : Document) : List (List Piece) :=
  (d.project.map Project.lines).getD [] ++ d.tables.flatMap (fun t => t.headedLines (headings t))
    ++ d.partials.flatMap Partial.lines ++ d.refs.map Ref.pieces
    ++ d.enums.flatMap Enumeration.lines

theorem headedLines_none (d : Document) : d.headedLines (fun _ => none) = d.lines := by
  simp only [headedLines, lines, Table.headedLines_none]

/-- What such a document means: every text is what is written between its quotes. -/
def headed (headings : Table → Option String) (d : Document) : Document :=
  { d with tables := d.tables.map fun t => t.headed (headings t) }

/-- What such a document is read as: texts that come by way of general settings are without the
single quotes at their ends. -/
def readBack (headings : Table → Option String) (d : Document) : Document :=
  { d with
    tables := d.tables.map fun t => t.unquoted.headed ((headings t).map unquote)
    partials := d.partials.map Partial.unquoted
    enums := d.enums.map Enumeration.unquoted }

end Document

end SchemaGraph
