/-!
# Diagrams

A schema is drawn as nodes and edges. A node is a table with its columns at a position on the
page; an edge runs from a column of one node to a column of another, or of the same one. Where an
edge meets a node it holds on to a handle, which is named after the column.
-/

namespace SchemaGraph

/-- A point on the page. -/
structure Position where
  x : Float
  y : Float
  deriving DecidableEq, Repr

/-- The part that a column plays in its table. -/
inductive KeyRole where
  | primary
  | foreign
  | unique
  deriving DecidableEq, Repr

/-- The role of a column with some properties. A primary key comes before a foreign key, and both
come before a unique column. -/
def KeyRole.of? (primary foreign unique : Bool) : Option KeyRole :=
  if primary then some .primary
  else if foreign then some .foreign
  else if unique then some .unique
  else none

/-- A column as a node shows it. -/
structure NodeColumn where
  name : String
  type : String
  role : Option KeyRole
  note : Option String
  deriving DecidableEq, Repr

/-- A table on the page. -/
structure Node where
  id : String
  position : Position
  tableName : String
  columns : List NodeColumn
  deriving DecidableEq, Repr

/-- Whether a node shows a column of a given name. -/
def Node.hasColumn (n : Node) (name : String) : Bool :=
  n.columns.any (·.name == name)

/-- A connection between two columns. -/
structure Edge where
  id : String
  source : String
  target : String
  sourceHandle : String
  targetHandle : String
  label : String
  deriving DecidableEq, Repr

/-- The two ends of an edge. -/
inductive Side where
  | source
  | target
  deriving DecidableEq, Repr

namespace Side

/-- What the handles of a side begin with. -/
def mark : Side → String
  | .source => "source-"
  | .target => "target-"

/-- The handle of a field. -/
def handle (side : Side) (field : String) : String :=
  side.mark ++ field

/-- The field behind a handle; a handle without the mark of its side is the field itself. -/
def field (side : Side) (handle : String) : String :=
  if side.mark.toList.isPrefixOf handle.toList then
    String.ofList (handle.toList.drop side.mark.length)
  else handle

/-- The field behind the handle of a field is that field. -/
theorem field_handle (side : Side) (field : String) : side.field (side.handle field) = field := by
  have hmark : (side.handle field).toList = side.mark.toList ++ field.toList := by
    rw [handle, String.toList_append]
  have hprefix : side.mark.toList.isPrefixOf (side.handle field).toList = true := by
    rw [hmark, List.isPrefixOf_iff_prefix]
    exact List.prefix_append _ _
  rw [Side.field, if_pos hprefix, hmark, ← String.length_toList, List.drop_left,
    String.ofList_toList]

end Side

namespace Edge

/-- The edge from a field of one node to a field of another. -/
def between (id source sourceField target targetField : String) : Edge where
  id
  source
  target
  sourceHandle := Side.source.handle sourceField
  targetHandle := Side.target.handle targetField
  label := sourceField ++ " → " ++ targetField

/-- Whether an edge ends at a node. -/
def touches (e : Edge) (nodeId : String) : Bool :=
  e.source == nodeId || e.target == nodeId

/-- The field at which an edge leaves its source. -/
def sourceField (e : Edge) : String :=
  Side.source.field e.sourceHandle

/-- The field at which an edge meets its target. -/
def targetField (e : Edge) : String :=
  Side.target.field e.targetHandle

end Edge

/-- A schema as it is drawn. -/
structure Diagram where
  nodes : List Node
  edges : List Edge
  deriving DecidableEq, Repr

namespace Diagram

/-- Whether there is nothing on the page. -/
def isEmpty (d : Diagram) : Bool :=
  d.nodes.isEmpty && d.edges.isEmpty

/-- The first node with a given id. -/
def node? (d : Diagram) (id : String) : Option Node :=
  d.nodes.find? (·.id == id)

/-- The first edge with a given id. -/
def edge? (d : Diagram) (id : String) : Option Edge :=
  d.edges.find? (·.id == id)

/-- Whether some node has a given id. -/
def hasNode (d : Diagram) (id : String) : Bool :=
  d.nodes.any (·.id == id)

/-- Whether some edge has a given id. -/
def hasEdge (d : Diagram) (id : String) : Bool :=
  d.edges.any (·.id == id)

/-- The nodes with the first one of a given id at a new place. -/
def placeNode (id : String) (position : Position) : List Node → List Node
  | [] => []
  | n :: rest =>
    if n.id = id then { n with position } :: rest else n :: placeNode id position rest

/-- Put the first node with a given id at a new place. -/
def place (d : Diagram) (id : String) (position : Position) : Diagram :=
  { d with nodes := placeNode id position d.nodes }

/-- Draw one more edge. -/
def addEdge (d : Diagram) (e : Edge) : Diagram :=
  { d with edges := d.edges ++ [e] }

/-- Whether both nodes that an edge ends at are on the page. -/
def carries (d : Diagram) (e : Edge) : Bool :=
  d.hasNode e.source && d.hasNode e.target

/-- Remove the edges that end at a node which is not on the page. -/
def prune (d : Diagram) : Diagram :=
  { d with edges := d.edges.filter d.carries }

/-- Remove the nodes with a given id, and the edges that are left without an end. -/
def removeNode (d : Diagram) (id : String) : Diagram :=
  prune { d with nodes := d.nodes.filter (·.id != id) }

/-- Remove the edges with a given id. -/
def removeEdge (d : Diagram) (id : String) : Diagram :=
  { d with edges := d.edges.filter (·.id != id) }

end Diagram

end SchemaGraph
