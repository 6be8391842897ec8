import SchemaGraph.Document.Written
import SchemaGraph.Token.Occurrence

/-!
# Values in words

The defaults of columns and the actions of references are values of settings, and a value can be
written as several bare words, as in `[delete: set null]`. A document is written here with words in
place of each of its values, and with everything else as in its written form. What is read in these
places are other values of the same document (`Document.mapValues`).
-/

namespace SchemaGraph

/-- At least one word, and every one a bare name. -/
structure AreWords (words : List String) : Prop where
  nonempty : words ≠ []
  bare : ∀ word ∈ words, BareName word.toList

/-- Words stand bare, one behind the other. -/
def wordPieces (words : List String) : List Piece :=
  words.map .keyword

/-- An action in words, if there is one. -/
def wordedAction (words : String → List String) (key : String) (value : Option String) :
    List (List Piece) :=
  (value.map fun v => keyedPieces key (wordPieces (words v))).toList

variable (f : String → String) (words : String → List String)

namespace ColumnSetting

/-- The value of a setting, if it has one. -/
def value? : ColumnSetting → Option String
  | .default value => some value
  | _ => none

/-- A setting with another value, if it has one. -/
def mapValue : ColumnSetting → ColumnSetting
  | .default value => .default (f value)
  | setting => setting

/-- The pieces of a setting with its value in words. -/
def wordedPieces : ColumnSetting → List Piece
  | .default value => keyedPieces "default" (wordPieces (words value))
  | setting => setting.pieces

end ColumnSetting

namespace Column

/-- The values of the settings of a column. -/
def values (c : Column) : List String :=
  c.settings.filterMap ColumnSetting.value?

/-- A column with other values. -/
def mapValues (c : Column) : Column :=
  { c with settings := c.settings.map (·.mapValue f) }

/-- The line of a column with its values in words. -/
def wordedPieces (c : Column) : List Piece :=
  .name c.name :: (c.type.map Piece.name).toList
    ++ settingPieces (c.settings.map (·.wordedPieces words))

end Column

namespace TableItem

/-- The values of an item. -/
def values : TableItem → List String
  | .column c => c.values
  | .marker .. => []

/-- An item with other values. -/
def mapValues : TableItem → TableItem
  | .column c => .column (c.mapValues f)
  | .marker name line => .marker name line

/-- The line of an item with its values in words. -/
def wordedPieces : TableItem → List Piece
  | .column c => c.wordedPieces words
  | .marker name _ => [.token .tilde, .name name]

end TableItem

namespace Table

/-- The values of a table. -/
def values (t : Table) : List String :=
  t.items.flatMap TableItem.values

/-- A table with other values. -/
def mapValues (t : Table) : Table :=
  { t with items := t.items.map (·.mapValues f) }

/-- The lines of a table with its values in words. -/
def wordedLines (t : Table) : List (List Piece) :=
  blockLines
    (.keyword "Table" :: qualifiedPieces t.schema t.name
      ++ (t.shorthand.map fun s => [.keyword "as", .name s]).getD [])
    (t.items.map (·.wordedPieces words) ++ Index.allLines t.indexes ++ noteLine t.note)

end Table

namespace Partial

/-- The values of a partial. -/
def values (p : Partial) : List String :=
  p.columns.flatMap Column.values

/-- A partial with other values. -/
def mapValues (p : Partial) : Partial :=
  { p with columns := p.columns.map (·.mapValues f) }

/-- The lines of a partial with its values in words. -/
def wordedLines (p : Partial) : List (List Piece) :=
  blockLines [.keyword "TablePartial", .name p.name]
    (p.columns.map (·.wordedPieces words) ++ Index.allLines p.indexes ++ noteLine p.note)

end Partial

namespace Ref

/-- The actions of a reference. -/
def values (r : Ref) : List String :=
  r.onDelete.toList ++ r.onUpdate.toList

/-- A reference with other actions. -/
def mapValues (r : Ref) : Ref :=
  { r with onDelete := r.onDelete.map f, onUpdate := r.onUpdate.map f }

/-- The line of a reference with its actions in words. -/
def wordedPieces (r : Ref) : List Piece :=
  .keyword "Ref" :: (r.name.map Piece.name).toList ++ [.token .colon]
    ++ (r.left.map Endpoint.pieces).getD []
    ++ .token r.relation.token :: (r.right.map Endpoint.pieces).getD []
    ++ settingPieces
      (wordedAction words "delete" r.onDelete ++ wordedAction words "update" r.onUpdate)

end Ref

namespace Document

/-- The values of a document: the defaults of its columns and the actions of its references. -/
def values (d : Document) : List String :=
  d.tables.flatMap Table.values ++ d.partials.flatMap Partial.values ++ d.refs.flatMap Ref.values

/-- A document with other values. -/
def mapValues (d : Document) : Document :=
  { d with
    tables := d.tables.map (·.mapValues f)
    partials := d.partials.map (·.mapValues f)
    refs := d.refs.map (·.mapValues f) }

/-- The lines of a document with its values in words. -/
def wordedLines (d : Document) : List (List Piece) :=
  (d.project.map Project.lines).getD [] ++ d.tables.flatMap (·.wordedLines words)
    ++ d.partials.flatMap (·.wordedLines words) ++ d.refs.map (·.wordedPieces words)
    ++ d.enums.flatMap Enumeration.lines

end Document

end SchemaGraph
