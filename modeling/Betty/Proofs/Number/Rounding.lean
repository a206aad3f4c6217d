import Betty.Proofs.Number.Canonical

/-!
# Rounding

The sum of two numbers is the exact sum, rounded: it is the nearest of the numbers that have
the last place of the exact sum, and of two that are equally near, the even one.

## Main definitions

* `lastPlace`: the exponent of the last place of the numbers of some size.
* `Rounds`: rounding to the nearest multiple of the last place, ties to even.

## Main results

* `roundWithAccuracy_rounds`: shifting out bits rounds.
* `exists_rounds_add`: the sum of two numbers is the exact sum, rounded.
-/

namespace Betty.Number

open Float.Model UnpackedFloat

/-! ### Rounding of rational numbers -/

/-- The exponent of the last place of the numbers that are about as large as `q`. -/
def lastPlace (q : ℚ) : ℤ :=
  max (Int.log 2 |q| - 52) (-1074)

/-- Rounding to the nearest multiple of the last place; of two that are equally near, to the
even one. -/
def Rounds (q r : ℚ) : Prop :=
  ∃ n : ℤ, r = n * 2 ^ lastPlace q ∧ |q - r| ≤ 2 ^ lastPlace q / 2 ∧
    (|q - r| = 2 ^ lastPlace q / 2 → Even n)

@[simp]
theorem lastPlace_neg (q : ℚ) : lastPlace (-q) = lastPlace q := by
  unfold lastPlace
  rw [abs_neg]

theorem Rounds.neg {q r : ℚ} (h : Rounds q r) : Rounds (-q) (-r) := by
  obtain ⟨n, hr, hnear, heven⟩ := h
  have hdistance : |(-q) - (-r)| = |q - r| := by rw [neg_sub_neg, abs_sub_comm]
  unfold Rounds
  rw [lastPlace_neg, hdistance]
  refine ⟨-n, ?_, hnear, fun htie => (heven htie).neg⟩
  rw [hr, Int.cast_neg, neg_mul]

/-- A multiple of the last place is not changed. -/
theorem Rounds.eq_of_multiple {q r : ℚ} (h : Rounds q r) {k : ℤ}
    (hk : q = k * 2 ^ lastPlace q) : r = q := by
  obtain ⟨n, hr, hnear, -⟩ := h
  have hpos : (0 : ℚ) < 2 ^ lastPlace q := by positivity
  have hdistance : q - r = ((k - n : ℤ) : ℚ) * 2 ^ lastPlace q := by
    rw [hr]
    nth_rewrite 1 [hk]
    push_cast
    ring
  rw [hdistance, abs_mul, abs_of_pos hpos, div_eq_inv_mul, mul_le_mul_iff_left₀ hpos] at hnear
  have hless : |k - n| < 1 := by
    have : |((k - n : ℤ) : ℚ)| < 1 := hnear.trans_lt (by norm_num)
    exact_mod_cast this
  have hequal : k = n := by
    rw [Int.abs_lt_one_iff] at hless
    omega
  rw [← hequal] at hr
  exact hr.trans hk.symm

theorem rounds_of_multiple {q : ℚ} {k : ℤ} (hk : q = k * 2 ^ lastPlace q) : Rounds q q := by
  have hpos : (0 : ℚ) < 2 ^ lastPlace q := by positivity
  refine ⟨k, hk, ?_, ?_⟩
  · rw [sub_self, abs_zero]
    positivity
  · rw [sub_self, abs_zero]
    intro htie
    linarith

/-- A number has at most as many bits before its last place as the mantissa, and it has all of
them unless the last place is the least there is. -/
theorem lastPlace_bounds {q : ℚ} (hpos : 0 < q) :
    q / 2 ^ lastPlace q < 2 ^ 53 ∧ (2 ^ 52 ≤ q / 2 ^ lastPlace q ∨ lastPlace q = -1074) := by
  have hscale : (0 : ℚ) < 2 ^ lastPlace q := by positivity
  have hleast : (2 : ℚ) ^ Int.log 2 q ≤ q := Int.zpow_log_le_self (by norm_num) hpos
  have hmost : q < (2 : ℚ) ^ (Int.log 2 q + 1) := Int.lt_zpow_succ_log_self (by norm_num) q
  have hplace : lastPlace q = max (Int.log 2 q - 52) (-1074) := by
    unfold lastPlace
    rw [abs_of_pos hpos]
  constructor
  · rw [div_lt_iff₀ hscale]
    calc q < 2 ^ (Int.log 2 q + 1) := hmost
      _ ≤ 2 ^ (53 + lastPlace q) := zpow_le_zpow_right₀ (by norm_num) (by omega)
      _ = 2 ^ 53 * 2 ^ lastPlace q := by rw [zpow_add₀ (by norm_num)]; norm_num
  · by_cases hsmall : lastPlace q = -1074
    · exact .inr hsmall
    · left
      rw [le_div_iff₀ hscale]
      calc (2 : ℚ) ^ 52 * 2 ^ lastPlace q = 2 ^ (52 + lastPlace q) := by
            rw [zpow_add₀ (by norm_num)]; norm_num
        _ ≤ 2 ^ Int.log 2 q := zpow_le_zpow_right₀ (by norm_num) (by omega)
        _ ≤ q := hleast

/-! ### The last place of a mantissa -/

/-- The size of a number is that of its mantissa, shifted by the exponent. -/
theorem log_mul_zpow {mantissa : ℕ} (hpos : 0 < mantissa) (exponent : ℤ) :
    Int.log 2 ((mantissa : ℚ) * 2 ^ exponent) = mantissa.log2 + exponent := by
  have hleast : (2 : ℚ) ^ (mantissa.log2 : ℤ) ≤ mantissa := by
    exact_mod_cast Nat.log2_self_le hpos.ne'
  have hmost : (mantissa : ℚ) < 2 ^ (mantissa.log2 + 1 : ℤ) := by
    exact_mod_cast @Nat.lt_log2_self mantissa
  have hvalue : (0 : ℚ) < mantissa * 2 ^ exponent := by positivity
  apply le_antisymm
  · rw [← Int.lt_add_one_iff]
    apply (Int.lt_zpow_iff_log_lt (by norm_num) hvalue).1
    push_cast
    calc (mantissa : ℚ) * 2 ^ exponent < 2 ^ (mantissa.log2 + 1 : ℤ) * 2 ^ exponent := by gcongr
      _ = 2 ^ (mantissa.log2 + exponent + 1 : ℤ) := by
        rw [← zpow_add₀ (by norm_num)]
        ring_nf
  · apply (Int.zpow_le_iff_le_log (by norm_num) hvalue).1
    push_cast
    rw [zpow_add₀ (by norm_num)]
    gcongr

theorem targetExponent_eq {mantissa : ℕ} (hpos : 0 < mantissa) (exponent : ℤ) :
    Format.binary64.targetExponent (totalExponent mantissa exponent) =
      lastPlace (mantissa * 2 ^ exponent) := by
  have hbits : (Format.binary64.mantissaBits : ℤ) = 53 := by decide
  have hleast : Format.binary64.minExponent = -1074 := by decide
  have hnonneg : (0 : ℚ) ≤ mantissa * 2 ^ exponent := by positivity
  unfold Format.targetExponent totalExponent lastPlace
  rw [abs_of_nonneg hnonneg, log_mul_zpow hpos, hbits, hleast]
  congr 1
  ring

/-- The exponent of a canonical form is the last place of its value. -/
theorem Canonical.lastPlace_eq {mantissa : ℕ} {exponent : ℤ} (h : Canonical mantissa exponent)
    (hpos : 0 < mantissa) : lastPlace (mantissa * 2 ^ exponent) = exponent := by
  have hnonneg : (0 : ℚ) ≤ mantissa * 2 ^ exponent := by positivity
  have hlog : mantissa.log2 < 53 := (Nat.log2_lt hpos.ne').2 h.lt
  have hge := h.ge
  unfold lastPlace
  rw [abs_of_nonneg hnonneg, log_mul_zpow hpos]
  rcases h.full with hfull | hleast
  · have hlog' : 52 ≤ mantissa.log2 := (Nat.le_log2 hpos.ne').2 hfull
    omega
  · omega

/-- A number is a multiple of its own last place. -/
theorem Denotes.exists_multiple {form : UnpackedFloat} {q : ℚ} (h : Denotes form q) :
    ∃ k : ℤ, q = k * 2 ^ lastPlace q := by
  cases h with
  | zero => exact ⟨0, by simp⟩
  | @finite sign mantissa exponent hpos hcanonical =>
    cases sign with
    | positive =>
      rw [value_positive, hcanonical.lastPlace_eq hpos]
      exact ⟨mantissa, by simp⟩
    | negative =>
      rw [value_negative, lastPlace_neg, hcanonical.lastPlace_eq hpos]
      exact ⟨-mantissa, by simp⟩

/-! ### Shifting out bits -/

/-- The two bits after a mantissa say where a number lies between the mantissa and the next
one: at it, before the middle, in the middle, or after it. -/
def Tracks (em : ExtendedMantissa) (q : ℚ) : Prop :=
  match em.roundBit, em.stickyBit with
  | false, false => q = em.mantissa
  | false, true => em.mantissa < q ∧ q < em.mantissa + 1 / 2
  | true, false => q = em.mantissa + 1 / 2
  | true, true => em.mantissa + 1 / 2 < q ∧ q < em.mantissa + 1

theorem Tracks.shiftRightOne {em : ExtendedMantissa} {q : ℚ} (h : Tracks em q) :
    Tracks em.shiftRightOne (q / 2) := by
  obtain ⟨m, round, sticky⟩ := em
  have hsplit : ((m % 2 : ℕ) : ℚ) + 2 * (m / 2 : ℕ) = m := by
    exact_mod_cast Nat.mod_add_div m 2
  -- the bit that is shifted out is the new bit after the mantissa
  rcases Nat.mod_two_eq_zero_or_one m with hbit | hbit
  all_goals
    rw [hbit] at hsplit
    cases round <;> cases sticky <;>
      simp only [Tracks, ExtendedMantissa.shiftRightOne, hbit] at h ⊢ <;>
      norm_num at h hsplit ⊢ <;> grind

theorem Tracks.shiftRight {em : ExtendedMantissa} {q : ℚ} (h : Tracks em q) (n : ℕ) :
    Tracks (em >>> n) (q / 2 ^ n) := by
  induction n with
  | zero =>
    rw [pow_zero, div_one]
    exact h
  | succ n ih =>
    rw [pow_succ, ← div_div]
    exact ih.shiftRightOne

/-- The mantissa is the number without its fraction. -/
theorem Tracks.mantissa_le {em : ExtendedMantissa} {q : ℚ} (h : Tracks em q) :
    em.mantissa ≤ q ∧ q < em.mantissa + 1 := by
  obtain ⟨m, round, sticky⟩ := em
  cases round <;> cases sticky <;> simp only [Tracks] at h ⊢ <;> grind

/-- The rounded mantissa is the nearest one, or the even one of the two nearest ones. -/
theorem Tracks.roundedMantissa {em : ExtendedMantissa} {q : ℚ} (h : Tracks em q) :
    |q - em.roundedMantissa| ≤ 1 / 2 ∧
      (|q - em.roundedMantissa| = 1 / 2 → Even em.roundedMantissa) ∧
      em.mantissa ≤ em.roundedMantissa ∧ em.roundedMantissa ≤ em.mantissa + 1 := by
  obtain ⟨m, round, sticky⟩ := em
  simp only [ExtendedMantissa.roundedMantissa, ExtendedMantissa.accuracy]
  cases round with
  | false =>
    cases sticky with
    | false =>
      have hexact : q - m = 0 := sub_eq_zero.2 h
      simp [Accuracy.roundToNearestEven, hexact]
    | true =>
      obtain ⟨habove, hbelow⟩ : (m : ℚ) < q ∧ q < m + 1 / 2 := h
      have hdistance : |q - m| < 1 / 2 := by rw [abs_lt]; constructor <;> linarith
      simp only [Accuracy.roundToNearestEven]
      exact ⟨hdistance.le, fun htie => absurd htie hdistance.ne, by omega, by omega⟩
  | true =>
    cases sticky with
    | false =>
      have hmiddle : q = m + 1 / 2 := h
      simp only [Accuracy.roundToNearestEven]
      refine ⟨?_, fun _ => Nat.even_iff.2 (by omega), by omega, by omega⟩
      rcases Nat.mod_two_eq_zero_or_one m with heven | hodd
      · rw [heven, hmiddle]
        norm_num
      · rw [hodd, hmiddle]
        norm_num
    | true =>
      obtain ⟨habove, hbelow⟩ : (m : ℚ) + 1 / 2 < q ∧ q < m + 1 := h
      have hdistance : |q - (m + 1 : ℕ)| < 1 / 2 := by
        push_cast
        rw [abs_lt]
        constructor <;> linarith
      simp only [Accuracy.roundToNearestEven]
      exact ⟨hdistance.le, fun htie => absurd htie hdistance.ne, by omega, by omega⟩

/-- Nothing is shifted out of a mantissa that fits. -/
theorem shiftToTargetExponent_of_lt {mantissa : ℕ} (hlt : mantissa < 2 ^ 53) {exponent : ℤ}
    (hge : -1074 ≤ exponent) :
    shiftToTargetExponent Format.binary64 mantissa exponent .exact =
      (⟨mantissa, false, false⟩, exponent) := by
  have hbits : (Format.binary64.mantissaBits : ℤ) = 53 := by decide
  have hleast : Format.binary64.minExponent = -1074 := by decide
  have hlog : mantissa.log2 < 53 := by
    by_cases hzero : mantissa = 0
    · rw [hzero]
      decide
    · exact (Nat.log2_lt hzero).2 hlt
  have hshift :
      (Format.binary64.targetExponent (totalExponent mantissa exponent) - exponent).toNat = 0 := by
    unfold Format.targetExponent totalExponent
    rw [hbits, hleast]
    omega
  unfold shiftToTargetExponent shiftToExponent
  dsimp only
  rw [hshift, Nat.cast_zero, add_zero]
  rfl

/-- One bit, which is not set, is shifted out of a mantissa that has become too long. -/
theorem shiftToTargetExponent_carry {exponent : ℤ} (hge : -1074 ≤ exponent) :
    shiftToTargetExponent Format.binary64 (2 ^ 53) exponent .exact =
      (⟨2 ^ 52, false, false⟩, exponent + 1) := by
  have hbits : (Format.binary64.mantissaBits : ℤ) = 53 := by decide
  have hleast : Format.binary64.minExponent = -1074 := by decide
  have hshift :
      (Format.binary64.targetExponent (totalExponent (2 ^ 53) exponent) - exponent).toNat = 1 := by
    unfold Format.targetExponent totalExponent
    rw [hbits, hleast, Nat.log2_two_pow]
    omega
  unfold shiftToTargetExponent shiftToExponent
  dsimp only
  rw [hshift]
  rfl

/-- The form that rounding ends with: a carry out of the mantissa moves into the exponent. -/
theorem denotes_rounded (sign : Sign) {rounded : ℕ} {place : ℤ} (hle : rounded ≤ 2 ^ 53)
    (hge : -1074 ≤ place) (hfull : 2 ^ 52 ≤ rounded ∨ place = -1074) :
    let last := shiftToTargetExponent Format.binary64 rounded place .exact
    Denotes (if h : last.1.mantissa = 0 then .zero sign
      else .finite sign last.1.mantissa last.2 (Nat.pos_of_ne_zero h))
      (Binary.value ⟨isNegative sign, rounded, place⟩) := by
  dsimp only
  rcases hle.lt_or_eq with hlt | rfl
  · rw [shiftToTargetExponent_of_lt hlt hge]
    by_cases hzero : rounded = 0
    · subst hzero
      have hvalue : Binary.value ⟨isNegative sign, 0, place⟩ = 0 := by simp [Binary.value]
      rw [dif_pos rfl, hvalue]
      exact .zero sign
    · rw [dif_neg hzero]
      exact .finite (Nat.pos_of_ne_zero hzero) ⟨hlt, hge, hfull⟩
  · rw [shiftToTargetExponent_carry hge]
    have hvalue : Binary.value ⟨isNegative sign, 2 ^ 53, place⟩ =
        Binary.value ⟨isNegative sign, 2 ^ 52, place + 1⟩ := by
      simp only [Binary.value]
      rw [zpow_add₀ (by norm_num)]
      push_cast
      ring
    rw [dif_neg (by norm_num), hvalue]
    exact .finite (by norm_num) ⟨by norm_num, by omega, .inl (by norm_num)⟩

/-- What is left of a mantissa that is shifted to the last place, with the bits after it, tracks
the number in units of the last place. -/
theorem shiftToTargetExponent_tracks {mantissa : ℕ} (hpos : 0 < mantissa) {exponent : ℤ} {q : ℚ}
    (hq : q = mantissa * 2 ^ exponent) (hle : exponent ≤ lastPlace q) :
    ∃ first, shiftToTargetExponent Format.binary64 mantissa exponent .exact =
      (first, lastPlace q) ∧ Tracks first (q / 2 ^ lastPlace q) := by
  obtain ⟨shift, hshift⟩ := Int.eq_ofNat_of_zero_le (sub_nonneg.2 hle)
  have hplace : lastPlace q = exponent + shift := by omega
  have hunits : q / 2 ^ lastPlace q = mantissa / 2 ^ shift := by
    rw [hplace, zpow_add₀ (by norm_num), zpow_natCast, hq]
    field_simp
  have hstart : Tracks (.ofMantissaAndAccuracy mantissa .exact) mantissa := rfl
  refine ⟨ExtendedMantissa.ofMantissaAndAccuracy mantissa .exact >>> shift, ?_, ?_⟩
  · unfold shiftToTargetExponent shiftToExponent
    dsimp only
    rw [targetExponent_eq hpos, ← hq, hplace, add_sub_cancel_left, Int.toNat_natCast]
  · rw [hunits]
    exact hstart.shiftRight shift

theorem Tracks.rounds {em : ExtendedMantissa} {q : ℚ} (h : Tracks em (q / 2 ^ lastPlace q)) :
    Rounds q (em.roundedMantissa * 2 ^ lastPlace q) := by
  obtain ⟨hnear, htie, -⟩ := h.roundedMantissa
  have hscale : (0 : ℚ) < 2 ^ lastPlace q := by positivity
  have hdistance : |q - em.roundedMantissa * 2 ^ lastPlace q| =
      |q / 2 ^ lastPlace q - em.roundedMantissa| * 2 ^ lastPlace q := by
    nth_rewrite 3 [← abs_of_pos hscale]
    rw [← abs_mul, sub_mul, div_mul_cancel₀ _ hscale.ne']
  have hhalf : (2 : ℚ) ^ lastPlace q / 2 = 1 / 2 * 2 ^ lastPlace q := by ring
  refine ⟨em.roundedMantissa, rfl, ?_, ?_⟩
  · rw [hdistance, hhalf]
    gcongr
  · rw [hdistance, hhalf, mul_left_inj' hscale.ne']
    intro hmiddle
    exact_mod_cast htie hmiddle

/-- The rounded mantissa fits, up to a carry. -/
theorem Tracks.rounded_bounds {em : ExtendedMantissa} {q : ℚ} (hpos : 0 < q)
    (h : Tracks em (q / 2 ^ lastPlace q)) :
    em.roundedMantissa ≤ 2 ^ 53 ∧ (2 ^ 52 ≤ em.roundedMantissa ∨ lastPlace q = -1074) := by
  obtain ⟨hbelow, hfull⟩ := lastPlace_bounds hpos
  obtain ⟨hfloor, hceil⟩ := h.mantissa_le
  obtain ⟨-, -, hdown, hup⟩ := h.roundedMantissa
  constructor
  · have hlt : em.mantissa < 2 ^ 53 := by exact_mod_cast hfloor.trans_lt hbelow
    omega
  · refine hfull.imp_left fun hlarge => ?_
    have hlt : 2 ^ 52 < em.mantissa + 1 := by exact_mod_cast hlarge.trans_lt hceil
    omega

/-- Shifting out bits rounds. -/
theorem roundWithAccuracy_rounds (sign : Sign) {mantissa : ℕ} (hpos : 0 < mantissa) {exponent : ℤ}
    (hle : exponent ≤ lastPlace (mantissa * 2 ^ exponent)) :
    ∃ r, Denotes (roundWithAccuracy Format.binary64 sign mantissa exponent .exact) r ∧
      Rounds (Binary.value ⟨isNegative sign, mantissa, exponent⟩) r := by
  have hvalue : (0 : ℚ) < mantissa * 2 ^ exponent := by positivity
  obtain ⟨first, hshifted, htracks⟩ := shiftToTargetExponent_tracks hpos rfl hle
  obtain ⟨hbound, hfull⟩ := htracks.rounded_bounds hvalue
  have hrounds := htracks.rounds
  refine ⟨Binary.value ⟨isNegative sign, first.roundedMantissa,
    lastPlace (mantissa * 2 ^ exponent)⟩, ?_, ?_⟩
  · unfold roundWithAccuracy
    rw [hshifted]
    exact denotes_rounded sign hbound (le_max_right _ _) hfull
  · cases sign with
    | positive =>
      rw [value_positive, value_positive]
      exact hrounds
    | negative =>
      rw [value_negative, value_negative]
      exact hrounds.neg

/-- A mantissa is shifted to a smaller exponent without a change of the value. -/
theorem exists_decreaseExponent (mantissa : ℕ) (exponent place : ℤ) :
    ∃ shifted least, decreaseExponent mantissa exponent place = (shifted, least) ∧
      (shifted : ℚ) * 2 ^ least = mantissa * 2 ^ exponent ∧ least = min exponent place := by
  refine ⟨_, _, rfl, ?_, by omega⟩
  generalize (exponent - place).toNat = shift
  rw [Nat.shiftLeft_eq, Nat.cast_mul, Nat.cast_pow, Nat.cast_ofNat, ← zpow_natCast, mul_assoc,
    ← zpow_add₀ (by norm_num)]
  congr 2
  omega

theorem round_rounds (sign : Sign) {mantissa : ℕ} (hpos : 0 < mantissa) (exponent : ℤ) :
    ∃ r, Denotes (UnpackedFloat.round Format.binary64 sign mantissa exponent) r ∧
      Rounds (Binary.value ⟨isNegative sign, mantissa, exponent⟩) r := by
  obtain ⟨shifted, least, heq, hsame, hleast⟩ :=
    exists_decreaseExponent mantissa exponent (lastPlace (mantissa * 2 ^ exponent))
  have hshifted : 0 < shifted := by
    have hvalue : (0 : ℚ) < shifted * 2 ^ least := by rw [hsame]; positivity
    exact_mod_cast pos_of_mul_pos_left hvalue (by positivity)
  have hle : least ≤ lastPlace (shifted * 2 ^ least) := by
    rw [hsame]
    omega
  obtain ⟨r, hdenotes, hrounds⟩ := roundWithAccuracy_rounds sign hshifted hle
  refine ⟨r, ?_, ?_⟩
  · unfold UnpackedFloat.round
    rw [targetExponent_eq hpos]
    dsimp only
    rw [heq]
    exact hdenotes
  · simp only [Binary.value, mul_assoc] at hrounds ⊢
    rwa [← hsame]

theorem rounds_zero : Rounds 0 0 :=
  rounds_of_multiple (show (0 : ℚ) = (0 : ℤ) * _ by simp)

/-- A number that is given by a mantissa with its sign is rounded. -/
theorem normalize_rounds (mantissa exponent : ℤ) (zeroSign : Sign) :
    ∃ r, Denotes (UnpackedFloat.normalize Format.binary64 mantissa exponent zeroSign) r ∧
      Rounds (mantissa * 2 ^ exponent) r := by
  unfold UnpackedFloat.normalize
  rcases lt_trichotomy mantissa 0 with hneg | rfl | hpos
  · rw [compare_lt_iff_lt.2 hneg]
    have hcast : (((-mantissa).toNat : ℕ) : ℚ) = -mantissa := by
      exact_mod_cast Int.toNat_of_nonneg (show 0 ≤ -mantissa by omega)
    have hvalue : Binary.value ⟨isNegative .negative, (-mantissa).toNat, exponent⟩ =
        mantissa * 2 ^ exponent := by
      rw [value_negative, hcast]
      ring
    rw [← hvalue]
    exact round_rounds .negative (by omega) exponent
  · rw [compare_eq_iff_eq.2 rfl]
    refine ⟨0, .zero zeroSign, ?_⟩
    rw [Int.cast_zero, zero_mul]
    exact rounds_zero
  · rw [compare_gt_iff_gt.2 hpos]
    have hcast : ((mantissa.toNat : ℕ) : ℚ) = mantissa := by
      exact_mod_cast Int.toNat_of_nonneg hpos.le
    have hvalue : Binary.value ⟨isNegative .positive, mantissa.toNat, exponent⟩ =
        mantissa * 2 ^ exponent := by
      rw [value_positive, hcast]
    rw [← hvalue]
    exact round_rounds .positive (by omega) exponent

/-! ### Addition -/

/-- A form keeps its value when its mantissa is shifted to a smaller exponent. -/
theorem apply_decreaseExponent (sign : Sign) (mantissa : ℕ) {exponent place : ℤ}
    (hle : place ≤ exponent) :
    (sign.apply ((decreaseExponent mantissa exponent place).1 : ℤ) : ℚ) * 2 ^ place =
      Binary.value ⟨isNegative sign, mantissa, exponent⟩ := by
  obtain ⟨shifted, least, heq, hsame, hleast⟩ := exists_decreaseExponent mantissa exponent place
  rw [min_eq_right hle] at hleast
  rw [heq, ← hleast]
  cases sign with
  | positive =>
    rw [value_positive, ← hsame]
    simp [Sign.apply]
  | negative =>
    rw [value_negative, ← hsame]
    simp [Sign.apply]

theorem Denotes.rounds_self {form : UnpackedFloat} {q : ℚ} (h : Denotes form q) : Rounds q q := by
  obtain ⟨k, hk⟩ := h.exists_multiple
  exact rounds_of_multiple hk

/-- The sum of canonical forms denotes the exact sum, rounded. -/
theorem Denotes.add {f g : UnpackedFloat} {a b : ℚ} (hf : Denotes f a) (hg : Denotes g b) :
    ∃ r, Denotes (f.add Format.binary64 g) r ∧ Rounds (a + b) r := by
  cases hf with
  | zero s =>
    cases hg with
    | zero t =>
      rw [add_zero]
      by_cases hsame : s == t
      · refine ⟨0, ?_, rounds_zero⟩
        rw [UnpackedFloat.add, if_pos hsame]
        exact .zero s
      · refine ⟨0, ?_, rounds_zero⟩
        rw [UnpackedFloat.add, if_neg hsame]
        exact .zero .positive
    | finite hn h =>
      rw [zero_add]
      exact ⟨_, .finite hn h, (Denotes.finite hn h).rounds_self⟩
  | @finite s m d hm h =>
    cases hg with
    | zero t =>
      rw [add_zero]
      exact ⟨_, .finite hm h, (Denotes.finite hm h).rounds_self⟩
    | @finite t n e hn h' =>
      rw [← apply_decreaseExponent s m (min_le_left d e),
        ← apply_decreaseExponent t n (min_le_right d e), ← add_mul]
      exact_mod_cast normalize_rounds _ _ .positive

/-- The sum of two numbers is the exact sum, rounded, unless that is too large. -/
theorem exists_rounds_add {x y : Float} {a b : ℚ} (hx : rational? x = some a)
    (hy : rational? y = some b) :
    ∃ r, Rounds (a + b) r ∧ (|r| < 2 ^ 1024 → rational? (x + y) = some r) := by
  obtain ⟨r, hdenotes, hrounds⟩ := (denotes_unpack hx).1.add (denotes_unpack hy).1
  exact ⟨r, hrounds, fun hlt => hdenotes.value?_pack hlt⟩

end Betty.Number
