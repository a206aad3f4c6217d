import Betty.Number.Binary
import Mathlib

/-!
# The exact value of a number

A finite floating-point number denotes a rational number. Here it is read off the sign, the
mantissa and the exponent that the format of numbers gives; questions about numbers that are
answered in integer arithmetic are answered for this value.

## Main definitions

* `rational?`: the rational number that a floating-point number denotes.
* `Binary.value`: the rational number that the parts of a number denote.

## Main results

* `ofFloat?_eq_parts?`: the parts of a number are those of its format.
* `integer?_eq_some_iff`: the integer value of a number is its exact value.
-/

namespace Betty.Number

open Float.Model

/-! ### Parts -/

/-- Is this the sign of a negative number? -/
def isNegative : UnpackedFloat.Sign → Bool
  | .negative => true
  | .positive => false

/-- The parts of a number that has been unpacked from its format. -/
def parts? : UnpackedFloat → Option Binary
  | .zero sign => some ⟨isNegative sign, 0, -1074⟩
  | .finite sign mantissa exponent _ => some ⟨isNegative sign, mantissa, exponent⟩
  | .infinity _ | .notANumber => none

theorem toNat_unpackExponent (bits : BitVec 64) :
    (@UnpackedFloat.unpackExponent Format.binary64 bits).toNat = bits.toNat / 2 ^ 52 % 2 ^ 11 := by
  simp [UnpackedFloat.unpackExponent, Nat.shiftRight_eq_div_pow]

theorem toNat_unpackMantissa (bits : BitVec 64) :
    (@UnpackedFloat.unpackMantissa Format.binary64 bits).toNat = bits.toNat % 2 ^ 52 := by
  simp [UnpackedFloat.unpackMantissa]

theorem isNegative_unpackSign (bits : BitVec 64) :
    isNegative (.ofBitVec (@UnpackedFloat.unpackSign Format.binary64 bits)) =
      (bits.toNat / 2 ^ 63 % 2 == 1) := by
  have hbit : ∀ bit : BitVec 1, isNegative (.ofBitVec bit) = (bit.toNat == 1) := by decide
  rw [hbit]
  simp [UnpackedFloat.unpackSign, Nat.shiftRight_eq_div_pow]

/-- The leading bit of a normal number is not stored. -/
theorem toNat_one_append (mantissa : BitVec 52) :
    (1#1 ++ mantissa).toNat = 2 ^ 52 + mantissa.toNat := by
  rw [BitVec.toNat_append, Nat.shiftLeft_eq, Nat.mul_comm]
  exact (Nat.two_pow_add_eq_or_of_lt mantissa.isLt 1).symm

/-- The parts of a number are those of its format. -/
theorem ofFloat?_eq_parts? (x : Float) : Binary.ofFloat? x = parts? x.toModel.unpack := by
  unfold Binary.ofFloat? Float.toBits Float.Model.unpack
  generalize x.toModel.toBits = word
  have hexponent : (@UnpackedFloat.unpackExponent Format.binary64 word.toBitVec).toNat =
      word.toNat / 2 ^ 52 % 2 ^ 11 := toNat_unpackExponent word.toBitVec
  have hmantissa : (@UnpackedFloat.unpackMantissa Format.binary64 word.toBitVec).toNat =
      word.toNat % 2 ^ 52 := toNat_unpackMantissa word.toBitVec
  have hsign : isNegative (.ofBitVec (@UnpackedFloat.unpackSign Format.binary64 word.toBitVec)) =
      (word.toNat / 2 ^ 63 % 2 == 1) := isNegative_unpackSign word.toBitVec
  have hbias : Format.binary64.exponentBias = 1023 := by decide
  have hlast : ∀ exponent : BitVec 11, exponent.toNat = 2047 ↔ exponent = -1#11 := by
    intro exponent
    rw [← BitVec.toNat_inj]
    rfl
  have hfirst : ∀ exponent : BitVec 11, exponent.toNat = 0 ↔ exponent = 0#11 := fun exponent => by
    rw [← BitVec.toNat_inj]
    rfl
  dsimp only [Nat.pow_eq]
  rw [← hsign, ← hexponent, ← hmantissa]
  fun_cases UnpackedFloat.unpack Format.binary64 word.toBitVec with
  | case1 _ exponent _ _ hinfinite _ =>
    rw [if_pos ((hlast exponent).2 hinfinite)]
    rfl
  | case2 _ exponent hinfinite _ =>
    rw [if_pos ((hlast exponent).2 hinfinite)]
    rfl
  | case3 mantissa exponent _ _ hfinite hsmall hzero =>
    rw [if_neg (mt (hlast exponent).1 hfinite), if_pos ((hfirst exponent).2 hsmall)]
    rw [show @UnpackedFloat.unpackMantissa Format.binary64 word.toBitVec = 0#52 from hzero]
    rfl
  | case4 mantissa exponent scale _ _ hfinite hsmall _ =>
    rw [if_neg (mt (hlast exponent).1 hfinite), if_pos ((hfirst exponent).2 hsmall)]
    have hscale : scale + 1 = -1074 := by
      change (exponent.toNat : Int) - (Format.binary64.exponentBias + 52) + 1 = -1074
      rw [(hfirst exponent).2 hsmall, hbias]
      rfl
    simp only [parts?, hscale]
    rfl
  | case5 mantissa exponent scale _ _ hfinite hnormal =>
    rw [if_neg (mt (hlast exponent).1 hfinite), if_neg (mt (hfirst exponent).1 hnormal)]
    have hscale : scale = exponent.toNat - 1075 := by
      change (exponent.toNat : Int) - (Format.binary64.exponentBias + 52) = _
      rw [hbias]
      rfl
    simp only [parts?, hscale]
    rw [show (1#1 ++ mantissa).toNat = 2 ^ 52 + mantissa.toNat from toNat_one_append mantissa]

/-! ### Values -/

/-- The rational number that the parts denote. -/
def Binary.value (b : Binary) : ℚ :=
  (if b.negative then -1 else 1) * b.mantissa * 2 ^ b.exponent

/-- The rational number that a floating-point number denotes; `none` for infinities and for the
value that is not a number. -/
def rational? (x : Float) : Option ℚ :=
  (parts? x.toModel.unpack).map Binary.value

/-- A quotient of integers is an integer if there is no remainder. -/
theorem div_eq_intCast_iff (num : ℕ) {den : ℕ} (hpos : 0 < den) (n : ℤ) :
    (num : ℚ) / den = n ↔ num % den = 0 ∧ ((num / den : ℕ) : ℤ) = n := by
  have hne : (den : ℚ) ≠ 0 := Nat.cast_ne_zero.2 hpos.ne'
  rw [div_eq_iff hne]
  constructor
  · intro h
    have hprod : (num : ℤ) = n * den := by exact_mod_cast h
    have hdvd : (den : ℤ) ∣ num := ⟨n, by rw [hprod, mul_comm]⟩
    refine ⟨Nat.mod_eq_zero_of_dvd (Int.natCast_dvd_natCast.1 hdvd), ?_⟩
    rw [Int.natCast_ediv, hprod, Int.mul_ediv_cancel _ (by omega)]
  · rintro ⟨hrest, rfl⟩
    have hprod : num / den * den = num := Nat.div_mul_cancel (Nat.dvd_of_mod_eq_zero hrest)
    exact_mod_cast hprod.symm

namespace Binary

/-- The absolute value is the quotient of two integers. -/
theorem fraction_value (b : Binary) :
    (b.mantissa : ℚ) * 2 ^ b.exponent = (b.fraction.1 : ℚ) / b.fraction.2 ∧ 0 < b.fraction.2 := by
  unfold fraction
  split
  · next hexponent =>
    obtain ⟨n, hn⟩ := Int.eq_ofNat_of_zero_le hexponent
    simp [hn]
  · next hexponent =>
    have hnegative : 0 ≤ -b.exponent := by omega
    obtain ⟨n, hn⟩ := Int.eq_ofNat_of_zero_le hnegative
    have hn' : b.exponent = -(n : ℤ) := by omega
    refine ⟨?_, Nat.two_pow_pos _⟩
    simp [hn', div_eq_mul_inv]

/-- The parts denote an integer if they denote it as a rational number. -/
theorem integer?_eq_some_iff (b : Binary) (n : ℤ) : b.integer? = some n ↔ b.value = n := by
  obtain ⟨hvalue, hpos⟩ := b.fraction_value
  unfold integer? value
  rw [mul_assoc, hvalue]
  cases b.negative with
  | false =>
    have hquotient := div_eq_intCast_iff b.fraction.1 hpos n
    simp only [Bool.false_eq_true, if_false, one_mul, hquotient]
    split <;> simp [*]
  | true =>
    have hquotient := div_eq_intCast_iff b.fraction.1 hpos (-n)
    rw [Int.cast_neg, ← neg_eq_iff_eq_neg] at hquotient
    simp only [if_true, neg_one_mul, hquotient]
    split <;> simp [*, neg_eq_iff_eq_neg]

end Binary

theorem integer?_eq_some_iff (x : Float) (n : ℤ) :
    integer? x = some n ↔ rational? x = some (n : ℚ) := by
  unfold integer? rational?
  rw [ofFloat?_eq_parts?]
  cases parts? x.toModel.unpack with
  | none => simp
  | some b => simpa using b.integer?_eq_some_iff n

end Betty.Number
