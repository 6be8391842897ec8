import SchemaGraph.Compile.Alias
import SchemaGraph.Compile.Expansion

/-!
# Links

A link is a reference whose ends are resolved to tables of the document. Links come from the
declared references and from the settings of columns. A link with both ends on declared tables is
drawn as one edge for each pair of fields; every other link is left out, with a warning.
-/

namespace SchemaGraph

/-- One end of a link. -/
structure LinkEnd where
  table : String
  fields : List String
  deriving DecidableEq, Repr

/-- A reference between resolved tables. -/
structure Link where
  line : Nat
  left : Option LinkEnd
  relation : Relation
  right : Option LinkEnd
  deriving DecidableEq, Repr

/-- The end of a link at an endpoint. -/
def LinkEnd.ofEndpoint (known : Aliases) (e : Endpoint) : LinkEnd :=
  ⟨e.tableId known, e.fields⟩

namespace Link

/-- The link of a declared reference. -/
def ofRef (known : Aliases) (r : Ref) : Link :=
  ⟨r.line, r.left.map (.ofEndpoint known), r.relation, r.right.map (.ofEndpoint known)⟩

/-- The links that a column of a table declares. -/
def ofColumn (known : Aliases) (table : String) (c : Column) : List Link :=
  c.inlineRefs.map fun r =>
    ⟨c.line, some ⟨table, [c.name]⟩, r.relation, some (.ofEndpoint known r.target)⟩

/-- The links of a document: those of declared references, then those of columns, injected ones
included, in the order of the tables. -/
def all (known : Aliases) (refs : List Ref) (tables : List Expansion) : List Link :=
  refs.map (ofRef known) ++ tables.flatMap fun t => t.columns.flatMap (ofColumn known t.id)

/-- Both ends of a link, if they are there and name fields. -/
def ends? (l : Link) : Option (LinkEnd × LinkEnd) :=
  match l.left, l.right with
  | some left, some right =>
    if left.fields.isEmpty || right.fields.isEmpty then none else some (left, right)
  | _, _ => none

end Link

/-- What becomes of a link. -/
inductive LinkOutcome where
  | drawn (relation : Relation) (left right : LinkEnd)
  | dropped (warning : CompileWarning)
  deriving DecidableEq, Repr

/-- Decide what becomes of a link between the declared tables. Unequally many fields are an error
even where a table is not declared. -/
def Link.outcome (declared : List String) (l : Link) : Except CompileError LinkOutcome :=
  match l.ends? with
  | none => .ok (.dropped (.incompleteRef l.line))
  | some (left, right) =>
    if left.fields.length ≠ right.fields.length then
      .error (.compositeArity l.line left.fields.length right.fields.length)
    else if left.table ∉ declared then .ok (.dropped (.danglingRef l.line left.table))
    else if right.table ∉ declared then .ok (.dropped (.danglingRef l.line right.table))
    else .ok (.drawn l.relation left right)

namespace LinkOutcome

/-- The warning about a link that is left out. -/
def warning? : LinkOutcome → Option CompileWarning
  | .drawn .. => none
  | .dropped warning => some warning

/-- The fields that hold a foreign key, each with its table. -/
def foreignFields : LinkOutcome → List (String × String)
  | .drawn relation left right =>
    (if relation.leftIsForeign then left.fields.map (left.table, ·) else [])
      ++ (if relation.rightIsForeign then right.fields.map (right.table, ·) else [])
  | .dropped _ => []

/-- The id of the edge for the fields at position `field` of the link at position `link`. -/
def edgeId (left right : String) (link field : Nat) : String :=
  s!"e-{left}-{right}-{link}-{field}"

/-- The edges of the link at position `link`, one for each pair of fields. -/
def edges (link : Nat) : LinkOutcome → List Edge
  | .drawn _ left right =>
    (left.fields.zip right.fields).zipIdx.map fun ((source, target), field) =>
      .between (edgeId left.table right.table link field) left.table source right.table target
  | .dropped _ => []

end LinkOutcome

end SchemaGraph
