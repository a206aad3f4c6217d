import Betty.Number.Binary
import Mathlib

/-!
# Equality of numbers

Two numbers are equal if they are the same number or both are zeros; a value that is not a
number is equal to nothing. So equality is symmetric and transitive, and it is reflexive
exactly on the values that are numbers, among them the code points of all characters.

## Main results

* `beq_symm`, `beq_trans`, `beq_self`: the laws of equality.
* `isNaN_toFloat`: an integer is a number.
-/

namespace Betty.Number

open Float.Model

/-! ### The laws of equality -/

theorem beq_symm {x y : Float} (h : x == y) : y == x := by
  rw [Float.beq_iff_ne_nan_and_eq] at h ⊢
  obtain ⟨hx, hy, hsame | hzeros | hzeros⟩ := h
  · exact ⟨hy, hx, .inl hsame.symm⟩
  · exact ⟨hy, hx, .inr (.inr hzeros.symm)⟩
  · exact ⟨hy, hx, .inr (.inl hzeros.symm)⟩

theorem beq_trans {x y z : Float} (h : x == y) (h' : y == z) : x == z := by
  rw [Float.beq_iff_ne_nan_and_eq] at h h' ⊢
  obtain ⟨hx, -, hxy⟩ := h
  obtain ⟨-, hz, hyz⟩ := h'
  refine ⟨hx, hz, ?_⟩
  rcases hxy with rfl | ⟨rfl, rfl⟩ | ⟨rfl, rfl⟩
  · exact hyz
  · -- the second one is a negative zero, so the third one is a zero too
    rcases hyz with rfl | ⟨-, rfl⟩ | ⟨-, rfl⟩
    · exact .inr (.inl ⟨rfl, rfl⟩)
    · exact .inr (.inl ⟨rfl, rfl⟩)
    · exact .inl rfl
  · rcases hyz with rfl | ⟨-, rfl⟩ | ⟨-, rfl⟩
    · exact .inr (.inr ⟨rfl, rfl⟩)
    · exact .inl rfl
    · exact .inr (.inr ⟨rfl, rfl⟩)

theorem beq_self (x : Float) : (x == x) = !x.isNaN := by
  rw [Bool.eq_iff_iff, Float.beq_self_iff, Float.isNaN_eq_decide_eq_nan]
  simp

/-! ### Integers are numbers -/

theorem isNaN_unpack_pack {form : UnpackedFloat} (h : form.isNaN = false) :
    (UnpackedFloat.unpack Format.binary64 (UnpackedFloat.pack Format.binary64 form)).isNaN =
      false := by
  rw [← Bool.not_eq_true, UnpackedFloat.isNaN_unpack_iff_of_valid UnpackedFloat.valid_pack]
  -- What is packed has not the bits of the value that is not a number.
  suffices hbits : ¬ (UnpackedFloat.isNaNBits (UnpackedFloat.pack Format.binary64 form) = true) by
    exact fun hpacked => hbits (hpacked ▸ UnpackedFloat.isNaNBits_packedNaN)
  rw [UnpackedFloat.isNaNBits, decide_eq_true_iff]
  fun_cases UnpackedFloat.pack Format.binary64 form with
  | case1 => cases h
  | case2 => simp [UnpackedFloat.packedInfinity]
  | case3 => simp [UnpackedFloat.packedZero]
  | case4 => simp [UnpackedFloat.packedInfinity]
  | case5 sign mantissa exponent _ _ biased hbiased =>
    -- The exponent of a normal number stays below the one that is kept for infinity.
    simp only [UnpackedFloat.unpackExponent_packComponents, ← BitVec.toNat_inj]
    have hbound : biased + 1 < 2 ^ 11 := Nat.lt_of_not_le hbiased
    have hlast : (-1#11).toNat = 2 ^ 11 - 1 := by decide
    rintro ⟨hexponent, -⟩
    rw [BitVec.toNat_ofNat, Nat.mod_eq_of_lt (by omega)] at hexponent
    omega
  | case6 => simp

theorem isNaN_round (sign : UnpackedFloat.Sign) (mantissa : Nat) (exponent : Int) :
    (UnpackedFloat.round Format.binary64 sign mantissa exponent).isNaN = false := by
  unfold UnpackedFloat.round UnpackedFloat.roundWithAccuracy
  dsimp only
  split <;> rfl

theorem isNaN_ofNat (n : Nat) : (UnpackedFloat.ofNat Format.binary64 n).isNaN = false := by
  unfold UnpackedFloat.ofNat UnpackedFloat.ofInt UnpackedFloat.normalize
  split
  · exact isNaN_round _ _ _
  · rfl
  · exact isNaN_round _ _ _

theorem isNaN_toFloat (n : UInt32) : n.toFloat.isNaN = false :=
  isNaN_unpack_pack (isNaN_ofNat n.toNat)

end Betty.Number
