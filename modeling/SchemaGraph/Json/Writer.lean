import SchemaGraph.Json.Basic

/-!
# Writing JSON

A value is written on one line without blanks, or over several lines with two blanks of
indentation for each level. Text is written as it is, but for the double quote, the backslash and
the control characters below the space. A value from which nothing can be read is written as `null`.
-/

namespace SchemaGraph.Json

/-- A code point in four hexadecimal digits. -/
def fourDigits (n : Nat) : List Char :=
  let digits := Nat.toDigits 16 n
  List.replicate (4 - digits.length) '0' ++ digits

/-- The written form of one character of a text. -/
def escaped (c : Char) : List Char :=
  if c = '"' ∨ c = '\\' then ['\\', c]
  else if c = '\n' then ['\\', 'n']
  else if c = '\r' then ['\\', 'r']
  else if c = '\t' then ['\\', 't']
  else if c = '\x08' then ['\\', 'b']
  else if c = '\x0c' then ['\\', 'f']
  else if c.toNat < 0x20 then '\\' :: 'u' :: fourDigits c.toNat
  else [c]

/-- The written form of a text. -/
def quotedText (text : String) : String :=
  String.ofList ('"' :: text.toList.flatMap escaped ++ ['"'])

mutual

/-- A value on one line. -/
def compact : Json → String
  | .null | .unreadable => "null"
  | .bool value => if value then "true" else "false"
  | .number value => value.text
  | .string value => quotedText value
  | .array elements => "[" ++ ",".intercalate (compactAll elements) ++ "]"
  | .object members => "\x7b" ++ ",".intercalate (compactMembers members) ++ "\x7d"

/-- Several values, each on one line. -/
def compactAll : List Json → List String
  | [] => []
  | value :: rest => compact value :: compactAll rest

/-- Several members, each on one line. -/
def compactMembers : List (String × Json) → List String
  | [] => []
  | (name, value) :: rest => (quotedText name ++ ":" ++ compact value) :: compactMembers rest

end

/-- The start of a line at a level of indentation. -/
def lineStart (level : Nat) : String :=
  String.ofList ('\n' :: List.replicate (2 * level) ' ')

/-- The parts of a list or an object, each on a line of its own. Without parts there is only the
pair of brackets. -/
def block (level : Nat) (opening closing : String) (parts : List String) : String :=
  if parts.isEmpty then opening ++ closing
  else
    opening ++ lineStart (level + 1) ++ ("," ++ lineStart (level + 1)).intercalate parts
      ++ lineStart level ++ closing

mutual

/-- A value over several lines, at a level of indentation. -/
def prettyAt (level : Nat) : Json → String
  | .array elements => block level "[" "]" (prettyAll (level + 1) elements)
  | .object members => block level "\x7b" "\x7d" (prettyMembers (level + 1) members)
  | .null | .unreadable => "null"
  | .bool value => if value then "true" else "false"
  | .number value => value.text
  | .string value => quotedText value

/-- Several values at a level of indentation. -/
def prettyAll (level : Nat) : List Json → List String
  | [] => []
  | value :: rest => prettyAt level value :: prettyAll level rest

/-- Several members at a level of indentation. -/
def prettyMembers (level : Nat) : List (String × Json) → List String
  | [] => []
  | (name, value) :: rest =>
    (quotedText name ++ ": " ++ prettyAt level value) :: prettyMembers level rest

end

/-- A value over several lines. -/
def pretty (value : Json) : String :=
  prettyAt 0 value

end SchemaGraph.Json
