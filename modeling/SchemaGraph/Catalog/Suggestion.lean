import SchemaGraph.Catalog.Basic
import SchemaGraph.Text.Lines
import SchemaGraph.Text.Word

/-!
# Suggestions

What can stand where something is being typed: keywords, then tables, then columns, each in the
order of the catalog. After a dot only the columns of the table before the dot are suggested, if
there is such a table. Case does not count.
-/

namespace SchemaGraph

/-- What a suggestion is. -/
inductive SuggestionKind where
  | keyword
  | table
  | field
  deriving DecidableEq, Repr

/-- The name of a kind. -/
def SuggestionKind.name : SuggestionKind → String
  | .keyword => "keyword"
  | .table => "table"
  | .field => "field"

/-- A suggestion for what is being typed. -/
structure Suggestion where
  label : String
  kind : SuggestionKind
  info : Option String
  deriving DecidableEq, Repr

namespace Suggestion

/-- Suggest a keyword. -/
def keyword (label : String) : Suggestion :=
  ⟨label, .keyword, none⟩

/-- Suggest a table. -/
def table (label : String) : Suggestion :=
  ⟨label, .table, none⟩

/-- Suggest a column of a table. -/
def field (label table : String) : Suggestion :=
  ⟨label, .field, some ("Column of " ++ table)⟩

end Suggestion

/-- The keywords that are suggested. -/
def suggestedKeywords : List String := ["Table", "Ref", "Project", "Enum"]

/-- What stands before and after the last dot of a text, if it has one. -/
def splitAtLastDot? (text : String) : Option (String × String) :=
  let reversed := text.toList.reverse
  if '.' ∈ reversed then
    some (String.ofList ((reversed.dropWhile (· != '.')).drop 1).reverse,
      String.ofList (reversed.takeWhile (· != '.')).reverse)
  else none

/-- More text without a dot belongs to what stands after the last dot. -/
theorem splitAtLastDot?_append_right {more : String} (h : '.' ∉ more.toList) (text : String) :
    splitAtLastDot? (text ++ more) =
      (splitAtLastDot? text).map fun parts => (parts.1, parts.2 ++ more) := by
  have hreversed : (text ++ more).toList.reverse = more.toList.reverse ++ text.toList.reverse := by
    rw [String.toList_append, List.reverse_append]
  have hmore : ∀ c ∈ more.toList.reverse, (c != '.') = true := by
    intro c hc
    rw [bne_iff_ne]
    rintro rfl
    exact h (List.mem_reverse.mp hc)
  have hmem : '.' ∈ more.toList.reverse ++ text.toList.reverse ↔ '.' ∈ text.toList.reverse := by
    rw [List.mem_append, List.mem_reverse, or_iff_right h]
  unfold splitAtLastDot?
  dsimp only
  rw [hreversed, List.takeWhile_append_of_pos hmore, List.dropWhile_append_of_pos hmore]
  by_cases hdot : '.' ∈ text.toList.reverse
  · rw [if_pos (hmem.mpr hdot), if_pos hdot]
    simp
  · rw [if_neg (mt hmem.mp hdot), if_neg hdot]
    rfl

/-- The part of a table's name after the last dot. -/
def bareName (name : String) : String :=
  ((splitAtLastDot? name).map Prod.snd).getD name

namespace Catalog

/-- The columns of one table that begin with what is typed. -/
def suggestFields (table : String) (columns : List String) (typed : String) : List Suggestion :=
  (columns.filter (Text.beginsWith · typed)).map (Suggestion.field · table)

/-- The table and the start of a column that a text with a dot means. -/
def qualified? (c : Catalog) (typed : String) : Option ((String × List String) × String) := do
  let (qualifier, start) ← splitAtLastDot? typed
  return (← c.resolve? qualifier, start)

/-- The keywords, tables and columns that begin with what is typed. A table matches by its whole
name or by its name without a schema. -/
def suggestAll (c : Catalog) (typed : String) : List Suggestion :=
  (suggestedKeywords.filter (Text.beginsWith · typed)).map .keyword
    ++ (c.tables.names.filter fun name =>
        Text.beginsWith name typed || Text.beginsWith (bareName name) typed).map .table
    ++ c.tables.entries.flatMap fun (table, columns) => suggestFields table columns typed

/-- The suggestions for what is typed. Where nothing is typed they have to be asked for
explicitly. -/
def suggest (c : Catalog) (typed : String) (explicit : Bool) : List Suggestion :=
  if typed = "" ∧ !explicit then []
  else match c.qualified? typed with
    | some ((table, columns), start) => suggestFields table columns start
    | none => c.suggestAll typed

end Catalog

/-! ### The word being typed -/

/-- The characters that lie within the first `size` bytes of a text. -/
def takeBytes : Nat → List Char → List Char
  | _, [] => []
  | size, c :: rest => if c.utf8Size ≤ size then c :: takeBytes (size - c.utf8Size) rest else []

/-- Whether a character may stand in a word with a qualifier. -/
def isTypedChar (c : Char) : Bool :=
  Text.isWordChar c || c == '.'

/-- The word that ends at byte `offset` of a text. -/
def typedAt (text : String) (offset : Nat) : String :=
  let head := takeBytes offset text.toList
  String.ofList (head.reverse.takeWhile isTypedChar).reverse

end SchemaGraph
