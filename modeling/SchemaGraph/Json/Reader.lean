import SchemaGraph.Json.Basic

/-!
# Reading JSON

A value is read from the start of a text, and what follows it is handed back; a whole text is one
value between blanks. The recursion is over a number of steps, which the length of the text
bounds: every step that reads a part of a value has taken at least one character before.
-/

namespace SchemaGraph.Json

/-- Whether a character is a blank, a tab or the end of a line. -/
def isBlank (c : Char) : Bool :=
  c = ' ' || c = '\n' || c = '\t' || c = '\r'

/-- Drop blanks, tabs and line ends. -/
def skipBlanks (cs : List Char) : List Char :=
  cs.dropWhile isBlank

/-- A fixed word. -/
def word (expected : List Char) (cs : List Char) : Option (Unit × List Char) :=
  if expected.isPrefixOf cs then some ((), cs.drop expected.length) else none

/-- The value of a hexadecimal digit. -/
def hexDigit? (c : Char) : Option Nat :=
  if c.isDigit then some (c.toNat - '0'.toNat)
  else if 'a' ≤ c ∧ c ≤ 'f' then some (c.toNat - 'a'.toNat + 10)
  else if 'A' ≤ c ∧ c ≤ 'F' then some (c.toNat - 'A'.toNat + 10)
  else none

/-- Four hexadecimal digits. -/
def fourHex : List Char → Option (Nat × List Char)
  | a :: b :: c :: d :: rest => do
    let digits ← [a, b, c, d].mapM hexDigit?
    return (digits.foldl (fun value digit => 16 * value + digit) 0, rest)
  | _ => none

/-- An escape for the second half of a character beyond the first `2^16`. -/
def secondHalf (cs : List Char) : Option (Nat × List Char) := do
  let ((), rest) ← word ['\\', 'u'] cs
  let (half, rest) ← fourHex rest
  if 0xdc00 ≤ half ∧ half < 0xe000 then return (half - 0xdc00, rest) else none

/-- The character after `\u`: four hexadecimal digits, or two escapes for a character beyond the
first `2^16`. Half of such a character on its own is well formed, but is no character. -/
def unicodeEscape (cs : List Char) : Option (Option Char × List Char) := do
  let (first, rest) ← fourHex cs
  if 0xd800 ≤ first ∧ first < 0xdc00 then
    match secondHalf rest with
    | some (second, rest) =>
      return (some (Char.ofNat (0x10000 + (first - 0xd800) * 0x400 + second)), rest)
    | none => return (none, rest)
  else if 0xdc00 ≤ first ∧ first < 0xe000 then return (none, rest)
  else return (some (Char.ofNat first), rest)

/-- The character that a backslash and `c` stand for, other than `\u`. -/
def simpleEscape? (c : Char) : Option Char :=
  if c = '"' ∨ c = '\\' ∨ c = '/' then some c
  else if c = 'b' then some '\x08'
  else if c = 'f' then some '\x0c'
  else if c = 'n' then some '\n'
  else if c = 'r' then some '\r'
  else if c = 't' then some '\t'
  else none

/-- The rest of a text after its opening quote. What was read so far is in `read`, latest first, as
long as all of it is characters. -/
def stringFrom : Nat → Option (List Char) → List Char → Option (Option String × List Char)
  | 0, _, _ => none
  | steps + 1, read, cs =>
    match cs with
    | [] => none
    | '"' :: rest => some (read.map fun read => String.ofList read.reverse, rest)
    | '\\' :: 'u' :: rest => do
      let (c, rest) ← unicodeEscape rest
      stringFrom steps (c.bind fun c => read.map (c :: ·)) rest
    | '\\' :: c :: rest => do
      let c ← simpleEscape? c
      stringFrom steps (read.map (c :: ·)) rest
    | c :: rest => if c.toNat < 0x20 then none else stringFrom steps (read.map (c :: ·)) rest

/-- A text after its opening quote. -/
def stringAfter (cs : List Char) : Option (Option String × List Char) :=
  stringFrom (cs.length + 1) (some []) cs

/-- As many digits as follow. -/
def digits (cs : List Char) : List Nat × List Char :=
  ((cs.takeWhile Char.isDigit).map fun c => c.toNat - '0'.toNat, cs.dropWhile Char.isDigit)

/-- At least one digit. -/
def digits1 (cs : List Char) : Option (List Nat × List Char) :=
  let (found, rest) := digits cs
  if found.isEmpty then none else some (found, rest)

/-- Whether there is a minus sign. -/
def sign (cs : List Char) : Bool × List Char :=
  match cs with
  | '-' :: rest => (true, rest)
  | rest => (false, rest)

/-- The digits behind a point, if there is one. -/
def fraction (cs : List Char) : Option (List Nat × List Char) :=
  match cs with
  | '.' :: rest => digits1 rest
  | rest => some ([], rest)

/-- A power of ten whose sign is known. -/
def power (sign : Int) (cs : List Char) : Option (Option Int × List Char) := do
  let (power, rest) ← digits1 cs
  return (some (sign * Numeral.ofDigits power), rest)

/-- The power of ten behind its letter, if there is one. -/
def exponent (cs : List Char) : Option (Option Int × List Char) :=
  match cs with
  | c :: rest =>
    if c = 'e' ∨ c = 'E' then
      match rest with
      | '+' :: rest => power 1 rest
      | '-' :: rest => power (-1) rest
      | rest => power 1 rest
    else some (none, c :: rest)
  | [] => some (none, [])

/-- A number. Only the digit `0` alone may start with `0`. -/
def numeral (cs : List Char) : Option (Numeral × List Char) := do
  let (negative, rest) := sign cs
  let (whole, rest) ← digits1 rest
  if whole.head? = some 0 ∧ 1 < whole.length then none
  let (fraction, rest) ← fraction rest
  let (exponent, rest) ← exponent rest
  return (⟨negative, whole, fraction, exponent⟩, rest)

mutual

/-- A value, after blanks. -/
def valueFrom : Nat → List Char → Option (Json × List Char)
  | 0, _ => none
  | steps + 1, cs =>
    match skipBlanks cs with
    | '"' :: rest => (stringAfter rest).map fun (text, rest) => (.ofText text, rest)
    | '[' :: rest =>
      match skipBlanks rest with
      | ']' :: rest => some (.array [], rest)
      | rest => (elementsFrom steps rest).map fun (values, rest) => (.array values, rest)
    | '\x7b' :: rest =>
      match skipBlanks rest with
      | '\x7d' :: rest => some (.object [], rest)
      | rest => (membersFrom steps rest).map fun (members, rest) => (.ofMembers members, rest)
    | 't' :: rest => (word ['r', 'u', 'e'] rest).map fun ((), rest) => (.bool true, rest)
    | 'f' :: rest => (word ['a', 'l', 's', 'e'] rest).map fun ((), rest) => (.bool false, rest)
    | 'n' :: rest => (word ['u', 'l', 'l'] rest).map fun ((), rest) => (.null, rest)
    | rest => (numeral rest).map fun (n, rest) => (.number n, rest)

/-- The elements of a list, up to its closing bracket. -/
def elementsFrom : Nat → List Char → Option (List Json × List Char)
  | 0, _ => none
  | steps + 1, cs => do
    let (value, rest) ← valueFrom steps cs
    match skipBlanks rest with
    | ',' :: rest => (elementsFrom steps rest).map fun (values, rest) => (value :: values, rest)
    | ']' :: rest => some ([value], rest)
    | _ => none

/-- The members of an object, up to its closing brace. -/
def membersFrom : Nat → List Char → Option (List (Option String × Json) × List Char)
  | 0, _ => none
  | steps + 1, cs =>
    match skipBlanks cs with
    | '"' :: rest => do
      let (name, rest) ← stringAfter rest
      match skipBlanks rest with
      | ':' :: rest =>
        let (value, rest) ← valueFrom steps rest
        match skipBlanks rest with
        | ',' :: rest =>
          (membersFrom steps rest).map fun (members, rest) => ((name, value) :: members, rest)
        | '\x7d' :: rest => some ([(name, value)], rest)
        | _ => none
      | _ => none
    | _ => none

end

/-- The value that a text is. -/
def read? (text : String) : Option Json := do
  let cs := text.toList
  let (value, rest) ← valueFrom (cs.length + 1) cs
  if (skipBlanks rest).isEmpty then return value else none

end SchemaGraph.Json
