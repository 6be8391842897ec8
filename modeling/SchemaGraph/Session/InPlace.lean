import SchemaGraph.Session.History

/-!
# Changes by hand in place

A change by hand can be made step by step on the session itself: first on the diagram, then on what
the session remembers. A step that fails ends the change, and what the steps before it have done is
not undone. The deletions find out only after the diagram has been changed whether there was
anything to delete, by comparing how much there was with how much is left.
-/

namespace SchemaGraph

/-- A change of a session in place. Where it fails, it leaves the session as its steps so far have
changed it. -/
abbrev InPlace := EStateM EditError Session

namespace InPlace

/-- The diagram that is shown. -/
def shown : InPlace Diagram := do
  match (← get).view with
  | .compiled d => return d
  | _ => throw .notCompiled

/-- Show another diagram. -/
def put (d : Diagram) : InPlace Unit :=
  modify fun s => { s with view := .compiled d }

/-- Remember where a node was moved. -/
def rememberPlace (id : String) (position : Position) : InPlace Unit :=
  modify fun s => { s with moved := s.moved.insert id position }

/-- Forget where a node was moved. -/
def forgetPlace (id : String) : InPlace Unit :=
  modify fun s => { s with moved := s.moved.erase id }

/-- Remember an edge that was drawn. -/
def rememberEdge (e : Edge) : InPlace Unit :=
  modify fun s => { s with drawn := s.drawn ++ [e] }

/-- Keep in mind those of the drawn edges that pass a test. -/
def keepEdges (keeps : Edge → Bool) : InPlace Unit :=
  modify fun s => { s with drawn := s.drawn.filter keeps }

/-- Fail if something is the case. -/
def refuse (isSo : Bool) (e : EditError) : InPlace Unit :=
  if isSo then throw e else return

/-- Fail if a port is not there. -/
def requirePort (d : Diagram) (side : Side) (node handle : String) : InPlace Unit :=
  match d.checkPort side node handle with
  | .ok () => return
  | .error e => throw e

/-- Move a node. -/
def move (id : String) (position : Position) : InPlace Unit := do
  let d ← shown
  match d.node? id with
  | none => throw (.unknownNode id)
  | some _ =>
    put (d.place id position)
    rememberPlace id position

/-- Draw an edge at a time in milliseconds. -/
def connect (c : Connection) (millis : Nat) : InPlace String := do
  let d ← shown
  requirePort d .source c.source c.sourceHandle
  requirePort d .target c.target c.targetHandle
  let id := d.freeEdgeId s!"e-{c.source}-{c.target}-{millis}"
  let edge := Edge.between id c.source (Side.source.field c.sourceHandle) c.target
    (Side.target.field c.targetHandle)
  put (d.addEdge edge)
  rememberEdge edge
  return id

/-- Delete a node together with the edges that end at it. -/
def deleteNode (id : String) : InPlace Unit := do
  let d ← shown
  let left := d.nodes.filter (·.id != id)
  put { d with nodes := left }
  refuse (left.length = d.nodes.length) (.unknownNode id)
  put (Diagram.prune { d with nodes := left })
  forgetPlace id
  keepEdges (!·.touches id)

/-- Delete an edge. -/
def deleteEdge (id : String) : InPlace Unit := do
  let d ← shown
  let left := d.edges.filter (·.id != id)
  put { d with edges := left }
  refuse (left.length = d.edges.length) (.unknownEdge id)
  keepEdges (·.id != id)

/-- Do one edit. -/
def perform : Edit → InPlace Unit
  | .update text => modify (·.update text)
  | .move id position => move id position
  | .connect connection millis => do
    let _ ← connect connection millis
  | .deleteNode id => deleteNode id
  | .deleteEdge id => deleteEdge id

end InPlace

end SchemaGraph
