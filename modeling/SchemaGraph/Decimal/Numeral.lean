/-!
# Decimal numerals

A number as it is written: a sign, digits before and after the point, and a power of ten. A
numeral keeps its digits, so that `4` and `4.0` stay different, and has a value as a natural number
or as a floating-point number where one is wanted.
-/

namespace SchemaGraph

/-- A decimal number as it is written. Digits are numbers below 10. -/
structure Numeral where
  negative : Bool
  /-- The digits before the point. -/
  whole : List Nat
  /-- The digits after the point; without any there is no point. -/
  fraction : List Nat
  /-- The written power of ten. -/
  exponent : Option Int
  deriving DecidableEq, Repr

namespace Numeral

/-- The number that digits stand for. -/
def ofDigits (digits : List Nat) : Nat :=
  digits.foldl (fun value digit => 10 * value + digit) 0

/-- The numeral of a natural number. -/
def ofNat (n : Nat) : Numeral :=
  ⟨false, (Nat.toDigits 10 n).map (fun c => c.toNat - '0'.toNat), [], none⟩

/-- Extend a significand by digits as long as it stays below `2^64`. Also gives the number of
digits left over. -/
def extend (significand : Nat) : List Nat → Nat × Nat
  | [] => (significand, 0)
  | digit :: rest =>
    if 10 * significand + digit < UInt64.size then extend (10 * significand + digit) rest
    else (significand, rest.length + 1)

/-- A significand below `2^64` and a power of ten that together are about the numeral's magnitude.
First the digits before the point extend the significand, then those after it, each as far as they
fit; digits that are left over before the point count as zeros. -/
def significand (n : Numeral) : Nat × Int :=
  let (whole, left) := extend 0 n.whole
  let (all, dropped) := extend whole n.fraction
  (all, n.exponent.getD 0 + left - (n.fraction.length - dropped : Nat))

/-- A power of ten from `10^0` to `10^308`. -/
def powerOfTen (n : Nat) : Float :=
  Float.ofScientific 1 false n

/-- A magnitude times a power of ten, in floating point, if it is finite. The magnitude is at most
`2^64`, so that nothing is left of it below `10^(-616)`. -/
def scale (magnitude : Float) (power : Int) : Option Float :=
  if magnitude == 0 then some magnitude
  else if 308 < power then none
  else if 0 ≤ power then
    some (magnitude * powerOfTen power.toNat) |>.filter (!·.isInf)
  else if -308 ≤ power then some (magnitude / powerOfTen power.natAbs)
  else if -616 ≤ power then some (magnitude / powerOfTen 308 / powerOfTen (power + 308).natAbs)
  else some 0

/-- The floating-point number that a numeral stands for; none where it is out of range. -/
def toFloat? (n : Numeral) : Option Float :=
  let (magnitude, power) := n.significand
  (scale magnitude.toFloat power).map fun x => if n.negative then -x else x

/-- The natural number below `2^64` that a numeral stands for: it has no sign, point or power. -/
def toNat? (n : Numeral) : Option Nat :=
  if n.negative || !n.fraction.isEmpty || n.exponent.isSome then none
  else some (ofDigits n.whole) |>.filter (· < UInt64.size)

/-- The text of digits. -/
def digitsText (digits : List Nat) : String :=
  String.ofList (digits.map Nat.digitChar)

/-- The text of the digits after the point, behind the point. -/
def fractionText (digits : List Nat) : String :=
  if digits.isEmpty then "" else "." ++ digitsText digits

/-- The text of a power of ten, which is written with its sign. -/
def exponentText : Option Int → String
  | none => ""
  | some power => (if 0 ≤ power then "e+" else "e") ++ toString power

/-- The text of a numeral. -/
def text (n : Numeral) : String :=
  (if n.negative then "-" else "") ++ digitsText n.whole ++ fractionText n.fraction
    ++ exponentText n.exponent

end Numeral

end SchemaGraph
