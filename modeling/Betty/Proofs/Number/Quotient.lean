import Betty.Proofs.Number.Rounding

/-!
# Products and quotients

The product and the quotient of two positive numbers are the exact ones, rounded. A quotient is
computed with enough bits to fill the mantissa, and the remainder of the division says where the
exact quotient lies between the computed one and the next.

## Main definitions

* `RoundsTo`: the form of a number without a sign that a rational number is rounded to.

## Main results

* `roundWithAccuracy_roundsTo`: rounding by what is known about the bits after the mantissa.
* `mul_roundsTo`: the product of two forms is the exact product, rounded.
* `div_roundsTo`: the quotient of two forms is the exact quotient, rounded.
-/

namespace Betty.Number

open Float.Model UnpackedFloat

/-- The form of a number without a sign that `q` is rounded to. -/
inductive RoundsTo (q : ℚ) : UnpackedFloat → Prop
  | zero (h : Rounds q 0) : RoundsTo q (.zero .positive)
  | finite {mantissa : ℕ} {exponent : ℤ} (hpos : 0 < mantissa)
      (hform : Canonical mantissa exponent) (h : Rounds q (mantissa * 2 ^ exponent)) :
      RoundsTo q (.finite .positive mantissa exponent hpos)

/-! ### Rounding with an accuracy -/

@[simp]
theorem mantissa_ofMantissaAndAccuracy (mantissa : ℕ) (accuracy : Accuracy) :
    (ExtendedMantissa.ofMantissaAndAccuracy mantissa accuracy).mantissa = mantissa := by
  cases accuracy with
  | exact => rfl
  | inexact order => cases order <;> rfl

/-- The size of a number is that of its mantissa, whatever the bits after the mantissa are. -/
theorem log_of_mantissa_le {mantissa : ℕ} (hpos : 0 < mantissa) {exponent : ℤ} {q : ℚ}
    (hle : (mantissa : ℚ) ≤ q / 2 ^ exponent) (hlt : q / 2 ^ exponent < mantissa + 1) :
    Int.log 2 q = mantissa.log2 + exponent := by
  have hscale : (0 : ℚ) < 2 ^ exponent := by positivity
  rw [le_div_iff₀ hscale] at hle
  rw [div_lt_iff₀ hscale] at hlt
  have hvalue : 0 < q := lt_of_lt_of_le (by positivity) hle
  have hmost : (mantissa : ℚ) + 1 ≤ 2 ^ (mantissa.log2 + 1 : ℤ) := by
    exact_mod_cast Nat.succ_le_of_lt (@Nat.lt_log2_self mantissa)
  apply le_antisymm
  · rw [← Int.lt_add_one_iff]
    apply (Int.lt_zpow_iff_log_lt (by norm_num) hvalue).1
    push_cast
    calc q < (mantissa + 1) * 2 ^ exponent := hlt
      _ ≤ 2 ^ (mantissa.log2 + 1 : ℤ) * 2 ^ exponent := by gcongr
      _ = 2 ^ (mantissa.log2 + exponent + 1 : ℤ) := by
        rw [← zpow_add₀ (by norm_num)]
        ring_nf
  · rw [← log_mul_zpow hpos]
    exact Int.log_mono_right (by positivity) hle

/-- The last place of a number is found from its mantissa. -/
theorem targetExponent_of_tracks {mantissa : ℕ} {exponent : ℤ} {accuracy : Accuracy} {q : ℚ}
    (hpos : 0 < q) (h : Tracks (.ofMantissaAndAccuracy mantissa accuracy) (q / 2 ^ exponent))
    (hle : exponent ≤ lastPlace q) :
    Format.binary64.targetExponent (totalExponent mantissa exponent) = lastPlace q := by
  have hbits : (Format.binary64.mantissaBits : ℤ) = 53 := by decide
  have hleast : Format.binary64.minExponent = -1074 := by decide
  obtain ⟨hfloor, hceil⟩ := h.mantissa_le
  rw [mantissa_ofMantissaAndAccuracy] at hfloor hceil
  unfold lastPlace at hle ⊢
  unfold Format.targetExponent totalExponent
  rw [hbits, hleast]
  rw [abs_of_pos hpos] at hle ⊢
  by_cases hzero : mantissa = 0
  · -- the number is below the unit of its mantissa, so its last place is the least there is
    subst hzero
    have hsmall : Int.log 2 q < exponent := by
      apply (Int.lt_zpow_iff_log_lt (by norm_num) hpos).1
      rw [Nat.cast_zero, zero_add, div_lt_iff₀ (by positivity), one_mul] at hceil
      exact_mod_cast hceil
    have hlog : Nat.log2 0 = 0 := by decide
    rw [hlog]
    omega
  · rw [log_of_mantissa_le (Nat.pos_of_ne_zero hzero) hfloor hceil]
    omega

theorem Denotes.roundsTo {mantissa : ℕ} {exponent : ℤ} {q r : ℚ}
    (h : Denotes (if hzero : mantissa = 0 then .zero .positive
      else .finite .positive mantissa exponent (Nat.pos_of_ne_zero hzero)) r)
    (hrounds : Rounds q r) :
    RoundsTo q (if hzero : mantissa = 0 then .zero .positive
      else .finite .positive mantissa exponent (Nat.pos_of_ne_zero hzero)) := by
  by_cases hzero : mantissa = 0
  · rw [dif_pos hzero] at h ⊢
    cases h
    exact .zero hrounds
  · rw [dif_neg hzero] at h ⊢
    cases h with
    | finite hpos hform =>
      rw [value_positive] at hrounds
      exact .finite hpos hform hrounds

/-- Shifting out bits rounds, also when something is known about the bits after them. -/
theorem roundWithAccuracy_roundsTo {mantissa : ℕ} {exponent : ℤ} {accuracy : Accuracy} {q : ℚ}
    (hpos : 0 < q) (h : Tracks (.ofMantissaAndAccuracy mantissa accuracy) (q / 2 ^ exponent))
    (hle : exponent ≤ lastPlace q) :
    RoundsTo q (roundWithAccuracy Format.binary64 .positive mantissa exponent accuracy) := by
  obtain ⟨shift, hshift⟩ := Int.eq_ofNat_of_zero_le (sub_nonneg.2 hle)
  have hplace : lastPlace q = exponent + shift := by omega
  have htracks : Tracks (ExtendedMantissa.ofMantissaAndAccuracy mantissa accuracy >>> shift)
      (q / 2 ^ lastPlace q) := by
    rw [hplace, zpow_add₀ (by norm_num), zpow_natCast, ← div_div]
    exact h.shiftRight shift
  have hshifted : shiftToTargetExponent Format.binary64 mantissa exponent accuracy =
      (ExtendedMantissa.ofMantissaAndAccuracy mantissa accuracy >>> shift, lastPlace q) := by
    unfold shiftToTargetExponent shiftToExponent
    dsimp only
    rw [targetExponent_of_tracks hpos h hle, hplace, add_sub_cancel_left, Int.toNat_natCast]
  obtain ⟨hbound, hfull⟩ := htracks.rounded_bounds hpos
  have hdenotes := denotes_rounded .positive hbound (le_max_right _ _) hfull
  rw [value_positive] at hdenotes
  unfold roundWithAccuracy
  rw [hshifted]
  exact hdenotes.roundsTo htracks.rounds

/-! ### Multiplication -/

/-- The product of two forms is the exact product, rounded, if it has enough bits to fill the
mantissa. -/
theorem mul_roundsTo {m n : ℕ} (hm : 0 < m) (hn : 0 < n) (d e : ℤ) (hfull : 2 ^ 52 ≤ m * n) :
    RoundsTo (m * 2 ^ d * (n * 2 ^ e))
      (mul Format.binary64 (.finite .positive m d hm) (.finite .positive n e hn)) := by
  have hvalue : (m : ℚ) * 2 ^ d * (n * 2 ^ e) = (m * n : ℕ) * 2 ^ (d + e) := by
    rw [zpow_add₀ (by norm_num)]
    push_cast
    ring
  have hprod : 0 < m * n := Nat.mul_pos hm hn
  have hlog : 52 ≤ (m * n).log2 := (Nat.le_log2 hprod.ne').2 hfull
  have hpos : (0 : ℚ) < (m * n : ℕ) * 2 ^ (d + e) := by positivity
  rw [hvalue]
  refine roundWithAccuracy_roundsTo hpos ?_ ?_
  · exact mul_div_cancel_right₀ _ (by positivity)
  · unfold lastPlace
    rw [abs_of_pos hpos, log_mul_zpow hprod]
    omega

/-! ### Division -/

theorem natCast_div_eq (num : ℕ) {den : ℕ} (hden : 0 < den) :
    (num : ℚ) / den = (num / den : ℕ) + (num % den : ℕ) / den := by
  have hscale : (den : ℚ) ≠ 0 := by exact_mod_cast hden.ne'
  rw [eq_comm, ← mul_left_inj' hscale, add_mul, div_mul_cancel₀ _ hscale, div_mul_cancel₀ _ hscale]
  exact_mod_cast Nat.div_add_mod' num den

/-- The quotient and the remainder say where the exact quotient lies. -/
theorem tracks_div (num : ℕ) {den : ℕ} (hden : 0 < den) :
    Tracks (.ofMantissaAndAccuracy (num / den) (accuracyOfFraction (num % den) den))
      ((num : ℚ) / den) := by
  have hscale : (0 : ℚ) < den := by exact_mod_cast hden
  have hlt : ((num % den : ℕ) : ℚ) / den < 1 := by
    rw [div_lt_one hscale]
    exact_mod_cast Nat.mod_lt num hden
  rw [natCast_div_eq num hden]
  unfold accuracyOfFraction
  by_cases hzero : num % den = 0
  · rw [if_pos hzero, hzero]
    simp [Tracks, ExtendedMantissa.ofMantissaAndAccuracy]
  · rw [if_neg hzero]
    have hrest : (0 : ℚ) < (num % den : ℕ) / den := by positivity
    rcases lt_trichotomy (2 * (num % den)) den with hless | hsame | hmore
    · rw [compare_lt_iff_lt.2 hless]
      have hbelow : ((num % den : ℕ) : ℚ) / den < 1 / 2 := by
        rw [div_lt_div_iff₀ hscale (by norm_num)]
        exact_mod_cast (by omega : num % den * 2 < 1 * den)
      constructor <;> rw [mantissa_ofMantissaAndAccuracy] <;> linarith
    · rw [compare_eq_iff_eq.2 hsame]
      have hmiddle : ((num % den : ℕ) : ℚ) / den = 1 / 2 := by
        rw [div_eq_div_iff hscale.ne' (by norm_num)]
        exact_mod_cast (by omega : num % den * 2 = 1 * den)
      rw [hmiddle]
      rfl
    · rw [compare_gt_iff_gt.2 hmore]
      have habove : 1 / 2 < ((num % den : ℕ) : ℚ) / den := by
        rw [div_lt_div_iff₀ (by norm_num) hscale]
        exact_mod_cast (by omega : 1 * den < num % den * 2)
      constructor <;> rw [mantissa_ofMantissaAndAccuracy] <;> linarith

/-- A quotient of mantissas is at least half as large as their sizes tell. -/
theorem le_log_div {m n : ℕ} (hm : 0 < m) (hn : 0 < n) (d e : ℤ) :
    m.log2 + d - (n.log2 + e) - 1 ≤ Int.log 2 ((m : ℚ) * 2 ^ d / (n * 2 ^ e)) := by
  have hleast : (2 : ℚ) ^ (m.log2 : ℤ) ≤ m := by exact_mod_cast Nat.log2_self_le hm.ne'
  have hmost : (n : ℚ) ≤ 2 ^ (n.log2 + 1 : ℤ) := by exact_mod_cast (@Nat.lt_log2_self n).le
  apply (Int.zpow_le_iff_le_log (by norm_num) (by positivity)).1
  push_cast
  rw [le_div_iff₀ (by positivity)]
  calc (2 : ℚ) ^ (m.log2 + d - (n.log2 + e) - 1 : ℤ) * (n * 2 ^ e)
      ≤ 2 ^ (m.log2 + d - (n.log2 + e) - 1 : ℤ) * (2 ^ (n.log2 + 1 : ℤ) * 2 ^ e) := by gcongr
    _ = 2 ^ (m.log2 : ℤ) * 2 ^ d := by
      rw [← zpow_add₀ (by norm_num), ← zpow_add₀ (by norm_num), ← zpow_add₀ (by norm_num)]
      ring_nf
    _ ≤ m * 2 ^ d := by gcongr

/-- The quotient of two forms is the exact quotient, rounded. -/
theorem div_roundsTo {m n : ℕ} (hm : 0 < m) (hn : 0 < n) (d e : ℤ) :
    RoundsTo (m * 2 ^ d / (n * 2 ^ e))
      (div Format.binary64 (.finite .positive m d hm) (.finite .positive n e hn)) := by
  have hbits : (Format.binary64.mantissaBits : ℤ) = 53 := by decide
  have hleast : Format.binary64.minExponent = -1074 := by decide
  have hpos : (0 : ℚ) < m * 2 ^ d / (n * 2 ^ e) := by positivity
  have hlog := le_log_div hm hn d e
  unfold UnpackedFloat.div divCore
  dsimp only
  generalize hplace : min (d - e) (Format.binary64.targetExponent
    (totalExponent m d - totalExponent n e)) = place
  obtain ⟨shift, hshift⟩ := Int.eq_ofNat_of_zero_le (show 0 ≤ d - e - place by omega)
  have hvalue : (m : ℚ) * 2 ^ d / (n * 2 ^ e) / 2 ^ place = (m <<< shift : ℕ) / n := by
    have hd : d = e + place + shift := by omega
    rw [Nat.shiftLeft_eq, hd, zpow_add₀ (by norm_num), zpow_add₀ (by norm_num), zpow_natCast]
    push_cast
    field_simp
  rw [hshift, Int.toNat_natCast]
  refine roundWithAccuracy_roundsTo hpos ?_ ?_
  · rw [hvalue]
    exact tracks_div _ hn
  · unfold Format.targetExponent totalExponent at hplace
    rw [hbits, hleast] at hplace
    unfold lastPlace
    rw [abs_of_pos hpos]
    omega

end Betty.Number
