import SchemaGraph.Document.Basic
import SchemaGraph.Token.Written

/-!
# Writing documents

Every document has a written form, in which each declaration, each entry of a body and each brace
that closes one stands on a line of its own. Keywords stand bare. Names, types and values are
written as quoted names, so that any text can stand for them; notes, names of indexes and the type
of a database are written as strings. Settings stand between brackets, and are left out where there
are none.
-/

namespace SchemaGraph

/-- A piece of a written line. -/
inductive Piece where
  /-- A keyword, which stands bare. -/
  | keyword (text : String)
  | token (t : Token)
  deriving DecidableEq, Repr

namespace Piece

/-- The token that a piece is read as. -/
def toToken : Piece → Token
  | .keyword text => .name text
  | .token t => t

/-- The written form of a piece. -/
def written : Piece → List Char
  | .keyword text => text.toList
  | .token t => t.written

/-- A name in double quotes. -/
def name (text : String) : Piece :=
  .token (.name text)

/-- A text in single quotes. -/
def string (text : String) : Piece :=
  .token (.string text)

/-- The text of pieces, a list for each line, parted by single spaces. -/
def writtenLines (lines : List (List Piece)) : String :=
  String.ofList <|
    (lines.map fun pieces => ((pieces.map written).intersperse [' ']).flatten).intersperse ['\n']
      |>.flatten

end Piece

/-- Lists of pieces parted by commas. -/
def commaSeparated (parts : List (List Piece)) : List Piece :=
  (parts.intersperse [.token .comma]).flatten

/-- Settings between brackets, if there are any. -/
def settingPieces (settings : List (List Piece)) : List Piece :=
  if settings.isEmpty then []
  else .token .openBracket :: commaSeparated settings ++ [.token .closeBracket]

/-- A setting with a value. -/
def keyedPieces (key : String) (value : List Piece) : List Piece :=
  .keyword key :: .token .colon :: value

/-- A setting with a text, if there is one. -/
def noteSetting (key : String) (text : Option String) : List (List Piece) :=
  (text.map fun t => keyedPieces key [.string t]).toList

/-- A setting with a name for its value, if there is one. -/
def actionSetting (key : String) (value : Option String) : List (List Piece) :=
  (value.map fun v => keyedPieces key [.name v]).toList

/-- A name that may be qualified by a schema. -/
def qualifiedPieces (schema : Option String) (name : String) : List Piece :=
  (schema.map fun s => [.name s, .token .dot]).getD [] ++ [.name name]

/-- The line of a note in a body, if there is one. -/
def noteLine (text : Option String) : List (List Piece) :=
  (text.map fun t => [.keyword "Note", .token .colon, .string t]).toList

/-- A heading with the brace that opens its body, the lines of the body, and the brace that closes
it. -/
def blockLines (heading : List Piece) (body : List (List Piece)) : List (List Piece) :=
  (heading ++ [.token .openBrace]) :: body ++ [[.token .closeBrace]]

namespace Relation

/-- The token of a relation. -/
def token : Relation → Token
  | .manyToOne => .greater
  | .oneToMany => .less
  | .oneToOne => .minus
  | .manyToMany => .diamond

end Relation

namespace Endpoint

/-- The pieces of an endpoint. Fields stand in parentheses, if there are any. -/
def pieces (e : Endpoint) : List Piece :=
  qualifiedPieces e.schema e.table
    ++ if e.fields.isEmpty then []
      else
        .token .dot :: .token .openParen :: commaSeparated (e.fields.map fun f => [.name f])
          ++ [.token .closeParen]

end Endpoint

namespace ColumnSetting

/-- The pieces of a setting. -/
def pieces : ColumnSetting → List Piece
  | .primaryKey => [.keyword "pk"]
  | .notNull => [.keyword "not", .keyword "null"]
  | .null => [.keyword "null"]
  | .unique => [.keyword "unique"]
  | .increment => [.keyword "increment"]
  | .note text => keyedPieces "note" [.string text]
  | .default value => keyedPieces "default" [.name value]
  | .ref r => keyedPieces "ref" (.token r.relation.token :: r.target.pieces)

end ColumnSetting

namespace Column

/-- The line of a column. -/
def pieces (c : Column) : List Piece :=
  .name c.name :: (c.type.map Piece.name).toList
    ++ settingPieces (c.settings.map ColumnSetting.pieces)

end Column

namespace Index

/-- The line of an index. -/
def pieces (i : Index) : List Piece :=
  .token .openParen :: commaSeparated (i.columns.map fun c => [.name c]) ++ [.token .closeParen]
    ++ settingPieces
      ((if i.primaryKey then [[.keyword "pk"]] else [])
        ++ (if i.unique then [[.keyword "unique"]] else [])
        ++ noteSetting "name" i.name)

/-- The block of several indexes, if there are any. -/
def allLines (indexes : List Index) : List (List Piece) :=
  if indexes.isEmpty then [] else blockLines [.keyword "indexes"] (indexes.map pieces)

end Index

namespace TableItem

/-- The line of an item. -/
def pieces : TableItem → List Piece
  | .column c => c.pieces
  | .marker name _ => [.token .tilde, .name name]

end TableItem

namespace Table

/-- The lines of a table. -/
def lines (t : Table) : List (List Piece) :=
  blockLines
    (.keyword "Table" :: qualifiedPieces t.schema t.name
      ++ (t.shorthand.map fun s => [.keyword "as", .name s]).getD [])
    (t.items.map TableItem.pieces ++ Index.allLines t.indexes ++ noteLine t.note)

end Table

namespace Partial

/-- The lines of a partial. -/
def lines (p : Partial) : List (List Piece) :=
  blockLines [.keyword "TablePartial", .name p.name]
    (p.columns.map Column.pieces ++ Index.allLines p.indexes ++ noteLine p.note)

end Partial

namespace Ref

/-- The line of a reference. -/
def pieces (r : Ref) : List Piece :=
  .keyword "Ref" :: (r.name.map Piece.name).toList ++ [.token .colon]
    ++ (r.left.map Endpoint.pieces).getD []
    ++ .token r.relation.token :: (r.right.map Endpoint.pieces).getD []
    ++ settingPieces (actionSetting "delete" r.onDelete ++ actionSetting "update" r.onUpdate)

end Ref

namespace EnumValue

/-- The line of a value. -/
def pieces (v : EnumValue) : List Piece :=
  .name v.name :: settingPieces (noteSetting "note" v.note)

end EnumValue

namespace Enumeration

/-- The lines of an enumeration. -/
def lines (e : Enumeration) : List (List Piece) :=
  blockLines (.keyword "Enum" :: qualifiedPieces e.schema e.name) (e.values.map EnumValue.pieces)

end Enumeration

namespace Project

/-- The lines of a project. -/
def lines (p : Project) : List (List Piece) :=
  blockLines (.keyword "Project" :: (p.name.map Piece.name).toList)
    ((p.databaseType.map fun t => [.keyword "database_type", .token .colon, .string t]).toList
      ++ noteLine p.note)

end Project

namespace Document

/-- The lines of a document. -/
def lines (d : Document) : List (List Piece) :=
  (d.project.map Project.lines).getD [] ++ d.tables.flatMap Table.lines
    ++ d.partials.flatMap Partial.lines ++ d.refs.map Ref.pieces
    ++ d.enums.flatMap Enumeration.lines

/-- The written form of a document. -/
def written (d : Document) : String :=
  Piece.writtenLines d.lines

end Document

end SchemaGraph
