import Betty.Number.Shortest

/-!
# Writing numbers

Numbers are written with the fewest digits that read back. A `Style` decides which
decimal exponents are written out positionally and how infinity is spelled.

## Main definitions

* `Style.value`: the text of a number as a value of the language.
* `Style.plain`: the text of a number inside messages, never with an exponent.
-/

namespace Betty.Number

/-- The decisions of a number format. -/
structure Style where
  /-- The spelling of positive infinity. -/
  infinity : String
  /-- Is a number whose first digit has the weight `10 ^ exponent` written
  positionally, without a power of ten? -/
  positional : Int → Bool

/-- Values write infinity out, and use powers of ten from `1E+15` upwards and from
`9E-05` downwards. -/
def Style.value : Style where
  infinity := "Infinity"
  positional exponent := -4 ≤ exponent && exponent ≤ 14

/-- Messages write every number positionally. -/
def Style.plain : Style where
  infinity := "inf"
  positional _ := true

/-- A row of `n` zeros. -/
def zeros (n : Nat) : List Char :=
  List.replicate n '0'

/-- Digits in positional notation, the first one having the weight
`10 ^ exponent`. -/
def positionalText (digits : List Char) (exponent : Int) : List Char :=
  if exponent < 0 then '0' :: '.' :: zeros (-exponent - 1).toNat ++ digits
  else
    let whole := exponent.toNat + 1
    if digits.length ≤ whole then digits ++ zeros (whole - digits.length)
    else digits.take whole ++ '.' :: digits.drop whole

/-- Digits with a power of ten: one digit before the point, and a signed exponent of
at least two digits. -/
def exponentText (digits : List Char) (exponent : Int) : List Char :=
  let mantissa :=
    match digits with
    | first :: second :: rest => first :: '.' :: second :: rest
    | short => short
  let power := Nat.toDigits 10 exponent.natAbs
  mantissa ++ 'E' :: (if exponent < 0 then '-' else '+') :: zeros (2 - power.length) ++ power

/-- The text of a decimal in the given style. -/
def Style.decimalText (style : Style) (d : Decimal) : List Char :=
  let digits := Nat.toDigits 10 d.significand
  let exponent := d.exponent + digits.length - 1
  if style.positional exponent then positionalText digits exponent
  else exponentText digits exponent

/-- The text of a number in the given style. The sign of zero is kept. -/
def Style.render (style : Style) (x : Float) : String :=
  match Binary.ofFloat? x with
  | none =>
    if x.isNaN then "NaN"
    else if x < 0 then "-" ++ style.infinity
    else style.infinity
  | some b =>
    let magnitude := if b.mantissa = 0 then ['0'] else style.decimalText (shortest x.abs b)
    String.ofList (if b.negative then '-' :: magnitude else magnitude)

end Betty.Number
