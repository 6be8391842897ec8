/-!
# Lines and byte ranges

A text is split into lines at every newline, so that a text with `k` newlines has `k + 1` lines.
Offsets count the bytes of the UTF-8 form. The range of a line runs from the byte after the
previous newline to the line's last byte, without a carriage return at its end.
-/

namespace SchemaGraph.Text

/-- The lines of a text, without their newlines. -/
def lines : List Char → List (List Char)
  | [] => [[]]
  | c :: rest =>
    if c = '\n' then [] :: lines rest
    else match lines rest with
      | [] => [[c]]
      | line :: others => (c :: line) :: others

/-- The number of bytes that a text takes. -/
def byteLength : List Char → Nat
  | [] => 0
  | c :: cs => c.utf8Size + byteLength cs

/-- A line without the carriage return that may stand at its end. -/
def withoutReturn (line : List Char) : List Char :=
  if line.getLast? = some '\r' then line.dropLast else line

/-- The bytes from offset `start` up to, and not including, offset `stop`. -/
structure ByteRange where
  start : Nat
  stop : Nat
  deriving DecidableEq, Repr

/-- The ranges of lines that begin at offset `start` and follow one another. -/
def rangesFrom (start : Nat) : List (List Char) → List ByteRange
  | [] => []
  | line :: others =>
    ⟨start, start + byteLength (withoutReturn line)⟩
      :: rangesFrom (start + byteLength line + 1) others

/-- The ranges of the lines of a text, in order. -/
def lineRanges (text : String) : List ByteRange :=
  rangesFrom 0 (lines text.toList)

/-- One of several ranges, counted from 1. -/
def nthRange? (ranges : List ByteRange) (line : Nat) : Option ByteRange :=
  if line = 0 then none else ranges[line - 1]?

/-- The range of one line, counted from 1. -/
def lineRange? (text : String) (line : Nat) : Option ByteRange :=
  nthRange? (lineRanges text) line

/-- There is always at least one line. -/
theorem lines_ne_nil (cs : List Char) : lines cs ≠ [] := by
  cases cs with
  | nil => simp [lines]
  | cons c rest => grind [lines]

/-- One line more than there are newlines. -/
theorem length_lines (cs : List Char) : (lines cs).length = cs.count '\n' + 1 := by
  induction cs with
  | nil => rfl
  | cons c rest ih =>
    have := lines_ne_nil rest
    grind [lines]

end SchemaGraph.Text
