import Betty.Number.Binary

/-!
# Decimal numerals

A `Decimal` is an integer times a power of ten. This module reads decimal
numerals from text and rounds them to the nearest number.

## Main definitions

* `Decimal.ofChars?`: reads an unsigned numeral such as `12`, `1.5`, `.5` or `3e-7`.
* `Decimal.toFloat`: the nearest number, a tie going to the even mantissa.
* `ofChars?`: reads a number with an optional sign, or one of the words for
  infinity and for the value that is not a number.
-/

namespace Betty.Number

/-- The number `significand * 10 ^ exponent`. -/
structure Decimal where
  significand : Nat
  exponent : Int
deriving DecidableEq, Repr

/-- The value of a row of decimal digits. -/
def digitsValue (digits : List Char) : Nat :=
  digits.foldl (fun value digit => 10 * value + (digit.toNat - '0'.toNat)) 0

namespace Decimal

/-- The number nearest to a decimal. -/
def toFloat (d : Decimal) : Float :=
  if 0 ≤ d.exponent then Float.ofScientific d.significand false d.exponent.toNat
  else Float.ofScientific d.significand true (-d.exponent).toNat

/-- Reads an integer with an optional sign that fills the whole text. -/
def signedInteger? (cs : List Char) : Option Int :=
  let (negative, digits) :=
    match cs with
    | '+' :: rest => (false, rest)
    | '-' :: rest => (true, rest)
    | _ => (false, cs)
  if digits.isEmpty || !digits.all Char.isDigit then none
  else if negative then some (-(digitsValue digits : Int))
  else some (digitsValue digits)

/-- Reads what may follow the digits of a numeral: nothing, or the letter `e` and a
power of ten. -/
def scale? : List Char → Option Int
  | [] => some 0
  | 'e' :: rest => signedInteger? rest
  | 'E' :: rest => signedInteger? rest
  | _ => none

/-- Reads an unsigned numeral that fills the whole text: digits with at most one
point among them and at least one digit, then an optional power of ten. -/
def ofChars? (cs : List Char) : Option Decimal :=
  let whole := cs.takeWhile Char.isDigit
  let afterWhole := cs.dropWhile Char.isDigit
  let (fraction, rest) :=
    match afterWhole with
    | '.' :: tail => (tail.takeWhile Char.isDigit, tail.dropWhile Char.isDigit)
    | _ => ([], afterWhole)
  if whole.isEmpty && fraction.isEmpty then none
  else (scale? rest).map fun scale =>
    ⟨digitsValue (whole ++ fraction), scale - fraction.length⟩

end Decimal

/-- Reads an unsigned number: a numeral, or a word for infinity or for the value
that is not a number, in letters of either case. -/
def unsigned? (cs : List Char) : Option Float :=
  let word := String.ofList (cs.map Char.toLower)
  if word = "inf" || word = "infinity" then some infinity
  else if word = "nan" then some notANumber
  else (Decimal.ofChars? cs).map Decimal.toFloat

/-- Reads a number with an optional sign that fills the whole text. -/
def ofChars? : List Char → Option Float
  | '+' :: rest => unsigned? rest
  | '-' :: rest => (unsigned? rest).map (- ·)
  | cs => unsigned? cs

end Betty.Number
