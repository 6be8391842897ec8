import SchemaGraph.Diagram.Basic

/-!
# The grid of a new diagram

The nodes of a new diagram stand in rows of a fixed length, from left to right and from top to
bottom.
-/

namespace SchemaGraph

/-- How many nodes a row has, and how far apart nodes stand. -/
structure Grid where
  columns : Nat := 4
  spacing : Position := ⟨300, 250⟩
  deriving DecidableEq, Repr

/-- The place of the node with a given index, counted from 0. A row has at least one node. -/
def Grid.position (g : Grid) (index : Nat) : Position :=
  let columns := max g.columns 1
  ⟨(index % columns).toFloat * g.spacing.x, (index / columns).toFloat * g.spacing.y⟩

end SchemaGraph
