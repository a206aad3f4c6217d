/-!
# Numbers as scaled integers

A finite floating-point number is an integer times a power of two. `Binary`
holds these parts, so that questions about a number (is it an integer, what is
its remainder) are answered in exact integer arithmetic.

## Main definitions

* `Binary.ofFloat?`: the parts of a finite number.
* `integer?`: the exact integer value of a number that has one.
* `remainder`: the exact remainder, with the sign of the dividend.
-/

namespace Betty.Number

/-- The number `± mantissa * 2 ^ exponent`. -/
structure Binary where
  negative : Bool
  mantissa : Nat
  exponent : Int
deriving DecidableEq, Repr

namespace Binary

/-- The parts of a finite number, with the exponent that its format gives it;
`none` for infinities and for the value that is not a number. -/
def ofFloat? (x : Float) : Option Binary :=
  let bits : Nat := x.toBits.toNat
  let negative := bits / Nat.pow 2 63 % 2 == 1
  let scale : Nat := bits / Nat.pow 2 52 % Nat.pow 2 11
  let fraction : Nat := bits % Nat.pow 2 52
  if scale = 2047 then none
  else if scale = 0 then some ⟨negative, fraction, -1074⟩
  else some ⟨negative, Nat.pow 2 52 + fraction, (scale : Int) - 1075⟩

/-- The absolute value as a quotient of two integers, the second one positive. -/
def fraction (b : Binary) : Nat × Nat :=
  if 0 ≤ b.exponent then (b.mantissa * Nat.pow 2 b.exponent.toNat, 1)
  else (b.mantissa, Nat.pow 2 (-b.exponent).toNat)

/-- The integer that the parts denote, if they denote one. -/
def integer? (b : Binary) : Option Int :=
  let (num, den) := b.fraction
  if num % den = 0 then
    some (if b.negative then -((num / den : Nat) : Int) else ((num / den : Nat) : Int))
  else none

/-- The power `2 ^ e`, for `e` between the exponents of the smallest and the
largest number. -/
def powerOfTwo (e : Int) : Float :=
  if -1022 ≤ e then Float.ofBits ((e + 1023).toNat * Nat.pow 2 52).toUInt64
  else Float.ofBits (Nat.pow 2 (e + 1074).toNat).toUInt64

/-- The number with the given parts. It is exact for a mantissa below `2 ^ 53` and
an exponent that a number can have. -/
def toFloat (b : Binary) : Float :=
  let magnitude := b.mantissa.toUInt64.toFloat * powerOfTwo b.exponent
  if b.negative then -magnitude else magnitude

/-- The remainder of two finite numbers, the second one not zero. Both are written
with the smaller of the two exponents, where the remainder is one of integers. -/
def remainder (a b : Binary) : Binary :=
  let exponent := min a.exponent b.exponent
  let dividend := a.mantissa * Nat.pow 2 (a.exponent - exponent).toNat
  let divisor := b.mantissa * Nat.pow 2 (b.exponent - exponent).toNat
  ⟨a.negative, dividend % divisor, exponent⟩

end Binary

/-- The value that is not a number. -/
def notANumber : Float :=
  Float.ofBits 0x7ff8000000000000

/-- Positive infinity. -/
def infinity : Float :=
  Float.ofBits 0x7ff0000000000000

/-- The exact integer value of a number; `none` for fractions, infinities and the
value that is not a number. -/
def integer? (x : Float) : Option Int :=
  (Binary.ofFloat? x).bind Binary.integer?

/-- The exact remainder of `x` by `y`, with the sign of `x`. An infinite divisor
leaves a finite dividend as it is. -/
def remainder (x y : Float) : Float :=
  match Binary.ofFloat? x, Binary.ofFloat? y with
  | some a, some b => if b.mantissa = 0 then notANumber else (a.remainder b).toFloat
  | some _, none => if y.isNaN then notANumber else x
  | none, _ => notANumber

end Betty.Number
