import SchemaGraph.Decimal.Numeral

/-!
# The shortest decimal of a floating-point number

Many decimals lie so close to a floating-point number that reading them gives it back. Of those
with the fewest digits the one nearest to the number is chosen, and of two equally near ones the
one with an even last digit. All arithmetic is on natural numbers.
-/

namespace SchemaGraph

/-- A positive floating-point number `4 · mantissa · 2^(power - 2)` with the two ends of the
interval of reals that round to it, in the same unit `2^(power - 2)`. -/
structure FloatInterval where
  value : Nat
  low : Nat
  high : Nat
  /-- Whether the two ends themselves round to the number. -/
  closed : Bool
  /-- The power of two of the unit. -/
  unit : Int

namespace FloatInterval

/-- The interval of a finite number other than zero, whatever its sign. -/
def ofFloat (x : Float) : FloatInterval :=
  let bits := x.toBits.toNat
  let biased : Nat := bits / Nat.pow 2 52 % Nat.pow 2 11
  let stored : Nat := bits % Nat.pow 2 52
  let mantissa := if biased = 0 then stored else Nat.pow 2 52 + stored
  let power : Int := if biased = 0 then -1074 else (biased : Int) - 1075
  -- Just below a power of two the neighbours are twice as dense.
  let below := if stored = 0 && 1 < biased then 1 else 2
  ⟨4 * mantissa, 4 * mantissa - below, 4 * mantissa + 2, mantissa % 2 = 0, power - 2⟩

/-- Two natural numbers that compare like `n · 10^ten` and `m · 2^unit`. -/
def scaled (n : Nat) (ten : Int) (m : Nat) (unit : Int) : Nat × Nat :=
  (n * Nat.pow 10 ten.toNat * Nat.pow 2 (-unit).toNat,
    m * Nat.pow 2 unit.toNat * Nat.pow 10 (-ten).toNat)

/-- Whether `n · 10^ten` rounds to the number. -/
def holds (i : FloatInterval) (ten : Int) (n : Nat) : Bool :=
  let (a, low) := scaled n ten i.low i.unit
  let (b, high) := scaled n ten i.high i.unit
  if i.closed then low ≤ a && b ≤ high else low < a && b < high

/-- The number of digits before the point; below 1, minus the number of zeros that follow it. -/
def magnitude (i : FloatInterval) : Int :=
  let top := i.value * Nat.pow 2 i.unit.toNat
  let bottom := Nat.pow 2 (-i.unit).toNat
  if bottom ≤ top then (Nat.toDigits 10 (top / bottom)).length
  else
    let inverse := (bottom + top - 1) / top
    1 - ((Nat.toDigits 10 (inverse - 1)).length : Int)

/-- The nearest multiple of `10^ten` that rounds to the number, if one does. -/
def nearest? (i : FloatInterval) (ten : Int) : Option Nat :=
  let (one, value) := scaled 1 ten i.value i.unit
  let below := value / one
  let above := below + 1
  match i.holds ten below, i.holds ten above with
  | true, true =>
    let toBelow := value - below * one
    let toAbove := above * one - value
    if toBelow < toAbove || (toBelow = toAbove && below % 2 = 0) then some below else some above
  | true, false => some below
  | false, true => some above
  | false, false => none

/-- The first grid, from one digit on, with a point that rounds to the number: the point, and the
power of ten of the grid. Seventeen digits are always enough. -/
def shortestFrom (i : FloatInterval) (size : Int) : Nat → Nat → Option (Nat × Int)
  | _, 0 => none
  | digits, tries + 1 =>
    match i.nearest? (size - digits) with
    | some n => some (n, size - digits)
    | none => shortestFrom i size (digits + 1) tries

end FloatInterval

/-- Digits without the zeros at their end. -/
def withoutTrailingZeros (digits : List Nat) : List Nat :=
  (digits.reverse.dropWhile (· = 0)).reverse

/-- The shortest digits of a finite number other than zero, and the place of the point: the
magnitude is `0.d₁d₂… · 10^point`. -/
def shortestDigits? (x : Float) : Option (List Nat × Int) :=
  let i := FloatInterval.ofFloat x
  (i.shortestFrom i.magnitude 1 17).map fun (n, ten) =>
    let digits := (Numeral.ofNat n).whole
    (withoutTrailingZeros digits, ten + digits.length)

/-- The numeral of digits other than zero and the place of the point. It has a point wherever it has
no power of ten, and a power of ten only from `10^16` on and below `10^(-5)`. -/
def Numeral.ofShortest (negative : Bool) (digits : List Nat) (point : Int) : Numeral :=
  if 16 < point || point ≤ -5 then
    ⟨negative, digits.take 1, digits.drop 1, some (point - 1)⟩
  else if point ≤ 0 then
    ⟨negative, [0], List.replicate (-point).toNat 0 ++ digits, none⟩
  else
    let whole := point.toNat
    ⟨negative, digits.take whole ++ List.replicate (whole - digits.length) 0,
      if digits.length ≤ whole then [0] else digits.drop whole, none⟩

/-- The numeral of a finite floating-point number. -/
def Numeral.ofFloat? (x : Float) : Option Numeral :=
  let negative := x.toBits.toNat / Nat.pow 2 63 = 1
  if !x.isFinite then none
  -- All bits but the sign are 0 for zero only.
  else if x.toBits.toNat % Nat.pow 2 63 = 0 then some ⟨negative, [0], [0], none⟩
  else (shortestDigits? x).map fun (digits, point) => .ofShortest negative digits point

end SchemaGraph
