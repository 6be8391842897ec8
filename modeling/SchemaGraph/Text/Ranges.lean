/-!
# Ranges of code points

A class of characters that no short rule describes is given by a table: the closed ranges of code
points that belong to it, in increasing order. This module says what it is for a character to be
in such a table.
-/

namespace SchemaGraph.Text

/-- A class of characters, as closed ranges of code points in increasing order. -/
abbrev Ranges := List (Nat × Nat)

/-- Whether a character's code point lies in one of the ranges. -/
def Ranges.covers : Ranges → Char → Bool
  | [], _ => false
  | (low, high) :: rest, c => (low ≤ c.toNat && c.toNat ≤ high) || Ranges.covers rest c

end SchemaGraph.Text
