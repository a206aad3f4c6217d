import Betty.Number.Decimal

/-!
# The shortest decimal that reads back

Among the decimals that are nearest to no other number, the one with the fewest
digits is written; of two with equally many digits the nearer one, and of two
equally near the larger one.

The search looks at grids of decimals with 1, 2, … 17 digits. On each grid only the
two neighbours of the number have to be tried: if any point of the grid reads back
as the number, one of them does. Seventeen digits always suffice; the exact
expansion closes the search, so that the result reads back by construction.
-/

namespace Betty.Number

/-- The number of digits of `n`, written in base ten. -/
def digitCount (n : Nat) : Nat :=
  (Nat.toDigits 10 n).length

/-- The `k` with `10 ^ (k - 1) ≤ num / den < 10 ^ k`, for a positive quotient. -/
def decimalOrder (num den : Nat) : Int :=
  if den ≤ num then digitCount (num / den)
  else 1 - (digitCount ((den - 1) / num) : Int)

/-- The quotient `num / den` times `10 ^ power`, again as a quotient. -/
def scaleFraction (num den : Nat) (power : Int) : Nat × Nat :=
  if 0 ≤ power then (num * Nat.pow 10 power.toNat, den)
  else (num, den * Nat.pow 10 (-power).toNat)

/-- The decimal `significand * 10 ^ (order - digits)`; when the significand has been
rounded up to the next power of ten, that power itself. -/
def gridPoint (digits : Nat) (order : Int) (significand : Nat) : Decimal :=
  if significand = Nat.pow 10 digits then ⟨1, order⟩ else ⟨significand, order - digits⟩

/-- The decimal with the given number of digits that reads back as the positive
number `x = num / den`, if there is one. -/
def onGrid? (x : Float) (num den : Nat) (order : Int) (digits : Nat) : Option Decimal :=
  let (top, bottom) := scaleFraction num den (digits - order)
  let low := gridPoint digits order (top / bottom)
  let high := gridPoint digits order (top / bottom + 1)
  let lowReads := low.toFloat == x
  let highReads := high.toFloat == x
  if lowReads && (!highReads || 2 * (top % bottom) < bottom) then some low
  else if highReads then some high
  else none

/-- The parts of a positive number as an exact decimal. -/
def Binary.toDecimal (b : Binary) : Decimal :=
  if 0 ≤ b.exponent then ⟨b.mantissa * Nat.pow 2 b.exponent.toNat, 0⟩
  else ⟨b.mantissa * Nat.pow 5 (-b.exponent).toNat, b.exponent⟩

/-- The shortest decimal that reads back as the positive number `x`, whose parts
are `b`. -/
def shortest (x : Float) (b : Binary) : Decimal :=
  let (num, den) := b.fraction
  let order := decimalOrder num den
  ((List.range' 1 17).findSome? (onGrid? x num den order)).getD b.toDecimal

end Betty.Number
