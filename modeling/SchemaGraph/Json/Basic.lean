import SchemaGraph.Decimal.Numeral

/-!
# JSON values

Settings are read from JSON, and diagrams are written to it. An object keeps its members in the
order in which they are written, and a number keeps its digits. An escape in a text can stand for
half of a character, which is no character; what holds such a text is a value from which nothing
can be read.
-/

namespace SchemaGraph

/-- A JSON value. -/
inductive Json where
  | null
  | bool (value : Bool)
  | number (value : Numeral)
  | string (value : String)
  | array (elements : List Json)
  | object (members : List (String × Json))
  /-- A text, or an object with a name, in which half of a character stands alone. -/
  | unreadable
  deriving Inhabited

namespace Json

/-- The value of a text, if it has one. -/
def ofText (text : Option String) : Json :=
  (text.map Json.string).getD .unreadable

/-- A member of an object, if its name is a text. -/
def member? (member : Option String × Json) : Option (String × Json) :=
  member.1.map (·, member.2)

/-- The object with some members, if all their names are texts. -/
def ofMembers (members : List (Option String × Json)) : Json :=
  ((members.mapM member?).map Json.object).getD .unreadable

/-- The truth value that a value is. -/
def toBool? : Json → Option Bool
  | .bool value => some value
  | _ => none

/-- The text that a value is. -/
def toString? : Json → Option String
  | .string value => some value
  | _ => none

/-- The natural number below `2^64` that a value is. -/
def toNat? : Json → Option Nat
  | .number value => value.toNat?
  | _ => none

/-- The floating-point number that a value stands for. -/
def toFloat? : Json → Option Float
  | .number value => value.toFloat?
  | _ => none

/-- The elements of a list value, each read by `read?`. -/
def toList? {α : Type} (read? : Json → Option α) : Json → Option (List α)
  | .array elements => elements.mapM read?
  | _ => none

/-- The choice that a value names: by its name alone, or as an object whose one member has the name
and no content. -/
def toChoice? : Json → Option String
  | .string name => some name
  | .object [(name, .null)] => some name
  | _ => none

/-- The first member of an object with a given name. -/
def get? (value : Json) (name : String) : Option Json :=
  match value with
  | .object members => members.lookup name
  | _ => none

/-- One named field of an object's members; unreadable if the name stands there twice. -/
def field? (members : List (String × Json)) (name : String) : Option (Option Json) :=
  match members.filter (·.1 == name) with
  | [] => some none
  | [(_, value)] => some (some value)
  | _ => none

/-- The fields of a record, in the order of `names`: those members of an object, or the elements of
a list, which may break off early. Members with other names do not count. -/
def fields? (names : List String) : Json → Option (List (Option Json))
  | .object members => names.mapM (field? members)
  | .array elements =>
    if elements.length ≤ names.length then
      some (elements.map some ++ List.replicate (names.length - elements.length) none)
    else none
  | _ => none

end Json

end SchemaGraph
