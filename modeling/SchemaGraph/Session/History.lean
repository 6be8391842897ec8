import SchemaGraph.Session.Basic

/-!
# The history of a session

What happens to a session is a sequence of edits. An edit that fails leaves the session as it was.
-/

namespace SchemaGraph

/-- Something that is done to a session. -/
inductive Edit where
  | update (text : String)
  | move (id : String) (position : Position)
  | connect (connection : Connection) (millis : Nat)
  | deleteNode (id : String)
  | deleteEdge (id : String)
  deriving DecidableEq, Repr

namespace Session

/-- Do one edit. -/
def perform (s : Session) : Edit → Except EditError Session
  | .update text => .ok (s.update text)
  | .move id position => s.move id position
  | .connect connection millis => (s.connect connection millis).map Prod.snd
  | .deleteNode id => s.deleteNode id
  | .deleteEdge id => s.deleteEdge id

/-- The session after an edit, successful or not. -/
def after (s : Session) (edit : Edit) : Session :=
  match s.perform edit with
  | .ok next => next
  | .error _ => s

/-- The session after a sequence of edits. -/
def run (s : Session) (edits : List Edit) : Session :=
  edits.foldl after s

end Session

end SchemaGraph
