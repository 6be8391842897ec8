import SchemaGraph.Catalog.Suggestion
import SchemaGraph.Diagnostic.Analysis

/-!
# Editing sessions

A session holds a text and the diagram that is compiled from it. The user can replace the text, and
can change the diagram by hand: move or delete a node, draw or delete an edge. Where the session
retains such changes, a diagram compiled later takes them over as far as they still fit.
-/

namespace SchemaGraph

/-- The settings of a session. -/
structure SessionSettings where
  dialect : Dialect := .partials
  compile : CompileOptions := {}
  /-- Whether moved nodes and drawn edges outlive a change of the text. -/
  retainsEdits : Bool := false
  deriving DecidableEq, Repr

/-- What a session shows. -/
inductive View where
  /-- There is nothing to show, because the text is blank. -/
  | empty
  | compiled (diagram : Diagram)
  /-- The text has no diagram, for the reason given. -/
  | failed (message : String)
  deriving DecidableEq, Repr

/-- The diagram that is shown. -/
def View.diagram? : View → Option Diagram
  | .compiled d => some d
  | _ => none

/-- A connection that the user asks for, from one handle to another. -/
structure Connection where
  source : String
  sourceHandle : String
  target : String
  targetHandle : String
  deriving DecidableEq, Repr

/-- What keeps a change by hand from being made. -/
inductive EditError where
  | notCompiled
  | unknownNode (id : String)
  | unknownEdge (id : String)
  /-- A node shows no column for a handle. -/
  | unknownPort (node handle : String)
  deriving DecidableEq, Repr

/-- The wording of an error. -/
def EditError.message : EditError → String
  | .notCompiled => "no compiled graph to edit"
  | .unknownNode id => s!"unknown node {id}"
  | .unknownEdge id => s!"unknown edge {id}"
  | .unknownPort node handle => s!"node {node} has no port {handle}"

namespace Diagram

/-- Check that a node shows a column for a handle. -/
def checkPort (d : Diagram) (side : Side) (node handle : String) : Except EditError Unit :=
  match d.node? node with
  | none => .error (.unknownNode node)
  | some n =>
    if n.hasColumn (side.field handle) then .ok () else .error (.unknownPort node handle)

/-- Whether a node shows a column for a handle. -/
def hasPort (d : Diagram) (side : Side) (node handle : String) : Bool :=
  (d.checkPort side node handle).toBool

/-- Whether both ends of an edge find their columns. -/
def fits (d : Diagram) (e : Edge) : Bool :=
  d.hasPort .source e.source e.sourceHandle && d.hasPort .target e.target e.targetHandle

/-- An edge id that a count tells from others made of the same base. -/
def numberedId (base : String) : Nat → String
  | 0 => base
  | n + 1 => s!"{base}-" ++ toString (n + 1)

/-- The first of `base`, `base-1`, `base-2`, … that no edge has. Among one more of them than there
are edges, one is free. -/
def freeEdgeId (d : Diagram) (base : String) : String :=
  (((List.range (d.edges.length + 1)).map (numberedId base)).find? (!d.hasEdge ·)).getD base

/-- Nodes at the places to which they were moved. -/
def placeMoved (d : Diagram) (moved : OrderedMap Position) : Diagram :=
  { d with nodes := d.nodes.map fun n => { n with position := (moved.get? n.id).getD n.position } }

/-- Draw an edge again, unless its id is in use or it fits no longer. -/
def redraw (d : Diagram) (e : Edge) : Diagram :=
  if d.hasEdge e.id then d else if d.fits e then d.addEdge e else d

end Diagram

/-- An editing session. -/
structure Session where
  settings : SessionSettings
  text : String := ""
  view : View := .empty
  catalog : Catalog := {}
  diagnostics : List Diagnostic := []
  warnings : List CompileWarning := []
  /-- Where the user moved nodes. -/
  moved : OrderedMap Position := ∅
  /-- The edges that the user drew, in order. -/
  drawn : List Edge := []
  deriving DecidableEq

namespace Session

/-- A session with a blank text. -/
def start (settings : SessionSettings) : Session :=
  { settings }

/-- The changes by hand, carried over to a new diagram. -/
def reapply (s : Session) (d : Diagram) : Diagram :=
  s.drawn.foldl Diagram.redraw (d.placeMoved s.moved)

/-- Forget the changes by hand, unless the session retains them. -/
def forgetEdits (s : Session) : Session :=
  if s.settings.retainsEdits then s else { s with moved := ∅, drawn := [] }

/-- What a session holds of a text before it is read. -/
def takeText (s : Session) (text : String) : Session :=
  { s.forgetEdits with
    text
    catalog := .outline text
    diagnostics := balance text
    warnings := [] }

/-- The text has no diagram. -/
def fail (s : Session) (problem : Diagnostic) (message : String) : Session :=
  { s with diagnostics := s.diagnostics ++ [problem], view := .failed message }

/-- Replace the text, and everything that depends on it. -/
def update (s : Session) (text : String) : Session :=
  let s := s.takeText text
  if text.toList.all Text.isBlank then { s with view := .empty }
  else match Document.parse s.settings.dialect text with
    | .error e => s.fail (e.diagnostic text) e.message
    | .ok document =>
      match compile s.settings.compile document with
      | .error e => s.fail (e.diagnostic text) e.message
      | .ok compiled =>
        { s with
          diagnostics := s.diagnostics ++ compiled.warnings.map (·.diagnostic text)
          warnings := compiled.warnings
          view := .compiled (s.reapply compiled.diagram) }

/-- The diagram that can be changed by hand. -/
def diagram (s : Session) : Except EditError Diagram :=
  match s.view with
  | .compiled d => .ok d
  | _ => .error .notCompiled

/-- Move a node. -/
def move (s : Session) (id : String) (position : Position) : Except EditError Session := do
  let d ← s.diagram
  if d.hasNode id then
    return { s with
      view := .compiled (d.place id position), moved := s.moved.insert id position }
  else throw (.unknownNode id)

/-- Draw an edge at a time in milliseconds. Also gives the id of the edge, which is made of its
nodes and the time. -/
def connect (s : Session) (c : Connection) (millis : Nat) :
    Except EditError (String × Session) := do
  let d ← s.diagram
  d.checkPort .source c.source c.sourceHandle
  d.checkPort .target c.target c.targetHandle
  let id := d.freeEdgeId s!"e-{c.source}-{c.target}-{millis}"
  let edge := Edge.between id c.source (Side.source.field c.sourceHandle) c.target
    (Side.target.field c.targetHandle)
  return (id, { s with view := .compiled (d.addEdge edge), drawn := s.drawn ++ [edge] })

/-- Delete a node together with the edges that end at it. -/
def deleteNode (s : Session) (id : String) : Except EditError Session := do
  let d ← s.diagram
  if d.hasNode id then
    return { s with
      view := .compiled (d.removeNode id)
      moved := s.moved.erase id
      drawn := s.drawn.filter (!·.touches id) }
  else throw (.unknownNode id)

/-- Delete an edge. -/
def deleteEdge (s : Session) (id : String) : Except EditError Session := do
  let d ← s.diagram
  if d.hasEdge id then
    return { s with
      view := .compiled (d.removeEdge id), drawn := s.drawn.filter (·.id != id) }
  else throw (.unknownEdge id)

/-- The suggestions for what is typed. -/
def suggest (s : Session) (typed : String) (explicit : Bool) : List Suggestion :=
  s.catalog.suggest typed explicit

/-- The suggestions for the word that ends at a byte of the text. -/
def suggestAt (s : Session) (offset : Nat) (explicit : Bool) : List Suggestion :=
  s.suggest (typedAt s.text offset) explicit

end Session

end SchemaGraph
