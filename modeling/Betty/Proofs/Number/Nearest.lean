import Betty.Number.Decimal
import Betty.Proofs.Number.Increment
import Betty.Proofs.Number.Quotient

/-!
# The number nearest to a decimal

Rounding keeps the order of the numbers that are rounded. So what rounds to one number is an
interval, and each number is the nearest one for exactly the rational numbers of its interval.

## Main definitions

* `Nearest`: the number that a rational number without a sign is rounded to.
* `Decimal.value`: the rational number that a decimal denotes.

## Main results

* `Rounds.mono`: rounding keeps the order.
* `Rounds.between`: what lies between two rational numbers that round alike rounds alike.
* `Decimal.nearest_toFloat`: a decimal is read as the number nearest to its value.
-/

namespace Betty.Number

open Float.Model UnpackedFloat

/-! ### The order of rounding -/

theorem Rounds.ge_of_multiple {q r : ℚ} (h : Rounds q r) {k : ℤ} (hle : k * 2 ^ lastPlace q ≤ q) :
    k * 2 ^ lastPlace q ≤ r := by
  have hneg := @Rounds.le_of_multiple _ _ h.neg (-k)
  rw [lastPlace_neg, Int.cast_neg, neg_mul] at hneg
  linarith [hneg (by linarith)]

theorem lastPlace_mono {a b : ℚ} (hpos : 0 < a) (hle : a ≤ b) : lastPlace a ≤ lastPlace b := by
  have hlog : Int.log 2 a ≤ Int.log 2 b := Int.log_mono_right hpos hle
  unfold lastPlace
  rw [abs_of_pos hpos, abs_of_pos (hpos.trans_le hle)]
  omega

/-- Two numbers with one last place are rounded in their order: of two halfway between the same
neighbours, both go to the even one. -/
theorem Rounds.mono_of_lastPlace_eq {a b r s : ℚ} (ha : Rounds a r) (hb : Rounds b s)
    (hle : a ≤ b) (hplace : lastPlace a = lastPlace b) : r ≤ s := by
  obtain ⟨n, rfl, hn, hneven⟩ := ha
  obtain ⟨k, rfl, hk, hkeven⟩ := hb
  rw [hplace] at hn hneven ⊢
  have hscale : (0 : ℚ) < 2 ^ lastPlace b := by positivity
  generalize (2 : ℚ) ^ lastPlace b = unit at *
  rw [mul_le_mul_iff_left₀ hscale]
  by_contra hlt
  have hless : k < n := by exact_mod_cast not_le.1 hlt
  have hstep : (k : ℚ) + 1 ≤ n := by exact_mod_cast Int.add_one_le_of_lt hless
  have hfar : (k + 1) * unit ≤ n * unit := by gcongr
  obtain ⟨hn', -⟩ := abs_le.1 hn
  obtain ⟨-, hk'⟩ := abs_le.1 hk
  have hsame : (k : ℚ) * unit + unit = n * unit := by linarith
  have hnext : (n : ℚ) = k + 1 := by
    rw [← mul_left_inj' hscale.ne']
    linarith
  have htie : |a - n * unit| = unit / 2 := by
    rw [abs_of_nonpos (by linarith)]
    linarith
  have htie' : |b - k * unit| = unit / 2 := by
    rw [abs_of_nonneg (by linarith)]
    linarith
  have hsucc : n = k + 1 := by exact_mod_cast hnext
  have hodd := hneven htie
  rw [hsucc, Int.even_add_one] at hodd
  exact hodd (hkeven htie')

/-- Rounding keeps the order. -/
theorem Rounds.mono {a b r s : ℚ} (ha : Rounds a r) (hb : Rounds b s) (hnonneg : 0 ≤ a)
    (hle : a ≤ b) : r ≤ s := by
  rcases hnonneg.eq_or_lt with rfl | hpos
  · have hzero : r = 0 := ha.eq_of_multiple (show (0 : ℚ) = (0 : ℤ) * _ by simp)
    have hbound := @Rounds.ge_of_multiple _ _ hb 0 (by simpa using hle)
    rw [hzero]
    simpa using hbound
  rcases (lastPlace_mono hpos hle).eq_or_lt with hplace | hplace
  · exact ha.mono_of_lastPlace_eq hb hle hplace
  · -- a power of two lies between the two numbers, and rounding goes beyond it for neither
    have hscale : (0 : ℚ) < 2 ^ lastPlace a := by positivity
    have hscale' : (0 : ℚ) < 2 ^ lastPlace b := by positivity
    have hbelow := (lastPlace_bounds hpos).1
    have habove := (lastPlace_bounds (hpos.trans_le hle)).2.resolve_right
      (by have : -1074 ≤ lastPlace a := le_max_right _ _; omega)
    rw [div_lt_iff₀ hscale] at hbelow
    rw [le_div_iff₀ hscale'] at habove
    have hr := @Rounds.le_of_multiple _ _ ha (2 ^ 53) (by exact_mod_cast hbelow.le)
    have hs := @Rounds.ge_of_multiple _ _ hb (2 ^ 52) (by exact_mod_cast habove)
    push_cast at hr hs
    have hgap : (2 : ℚ) ^ 53 * 2 ^ lastPlace a ≤ 2 ^ 52 * 2 ^ lastPlace b := by
      calc (2 : ℚ) ^ 53 * 2 ^ lastPlace a = 2 ^ 52 * 2 ^ (lastPlace a + 1) := by
            rw [zpow_add_one₀ (by norm_num)]
            ring
        _ ≤ 2 ^ 52 * 2 ^ lastPlace b := by
            gcongr
            · norm_num
            · omega
    exact hr.trans (hgap.trans hs)

theorem Rounds.unique {q r s : ℚ} (hnonneg : 0 ≤ q) (hr : Rounds q r) (hs : Rounds q s) : r = s :=
  le_antisymm (hr.mono hs hnonneg le_rfl) (hs.mono hr hnonneg le_rfl)

/-- Each number without a sign is rounded to some form. -/
theorem exists_roundsTo {q : ℚ} (hnonneg : 0 ≤ q) : ∃ form, RoundsTo q form := by
  rcases hnonneg.eq_or_lt with rfl | hpos
  · exact ⟨_, .zero rounds_zero⟩
  · have hnum : 0 < q.num.toNat := by
      have := Rat.num_pos.2 hpos
      omega
    have hcast : ((q.num.toNat : ℕ) : ℚ) = q.num := by
      exact_mod_cast Int.toNat_of_nonneg (Rat.num_pos.2 hpos).le
    have hquotient := div_roundsTo hnum q.den_pos 0 0
    rw [zpow_zero, mul_one, mul_one, hcast, Rat.num_div_den] at hquotient
    exact ⟨_, hquotient⟩

theorem RoundsTo.exists_rounds {q : ℚ} {form : UnpackedFloat} (h : RoundsTo q form) :
    ∃ r, Denotes form r ∧ Rounds q r := by
  cases h with
  | zero h => exact ⟨0, .zero _, h⟩
  | finite hpos hform h => exact ⟨_, .finite hpos hform, by rwa [value_positive]⟩

/-- What lies between two numbers that round alike rounds alike. -/
theorem Rounds.between {a b c r : ℚ} (ha : Rounds a r) (hc : Rounds c r) (hnonneg : 0 ≤ a)
    (hab : a ≤ b) (hbc : b ≤ c) : Rounds b r := by
  obtain ⟨form, hform⟩ := exists_roundsTo (hnonneg.trans hab)
  obtain ⟨s, -, hs⟩ := hform.exists_rounds
  have hequal : s = r :=
    le_antisymm (hs.mono hc (hnonneg.trans hab) hbc) (ha.mono hs hnonneg hab)
  rwa [hequal] at hs

/-! ### The nearest number -/

/-- The number that a rational number without a sign is rounded to. -/
def Nearest (q : ℚ) (x : Float) : Prop :=
  ∃ form, RoundsTo q form ∧ x = .ofModel (.pack form)

theorem ofModel_pack_unpack (x : Float) : Float.ofModel (.pack x.toModel.unpack) = x :=
  Float.toBits_inj.1 (UInt64.toBitVec_inj.1 (pack_unpack_of_valid x.toModel.valid))

theorem unpack_packedInfinity (sign : Sign) :
    UnpackedFloat.unpack Format.binary64 (packedInfinity Format.binary64 sign) =
      .infinity sign := by
  simp [UnpackedFloat.unpack, packedInfinity]

/-- A form with too large an exponent is packed into infinity. -/
theorem pack_of_large {sign : Sign} {mantissa : ℕ} {exponent : ℤ} (hpos : 0 < mantissa)
    (hlarge : 971 < exponent) :
    UnpackedFloat.pack Format.binary64 (.finite sign mantissa exponent hpos) =
      packedInfinity Format.binary64 sign := by
  have hbias : Format.binary64.exponentBias = 1023 := by decide
  unfold UnpackedFloat.pack
  dsimp only
  rw [hbias, if_pos (by omega)]

theorem exists_unpack_of_ne_zero {x : Float} {v : ℚ} (hx : rational? x = some v) (hne : v ≠ 0) :
    ∃ (sign : Sign) (mantissa : ℕ) (exponent : ℤ) (h : 0 < mantissa),
      x.toModel.unpack = .finite sign mantissa exponent h ∧
        v = Binary.value ⟨isNegative sign, mantissa, exponent⟩ := by
  obtain ⟨hdenotes, -⟩ := denotes_unpack hx
  generalize x.toModel.unpack = form at hdenotes
  cases hdenotes with
  | zero => exact absurd rfl hne
  | finite hpos _ => exact ⟨_, _, _, hpos, rfl, rfl⟩

theorem Binary.value_neg_iff {b : Binary} (hpos : 0 < b.mantissa) :
    b.value < 0 ↔ b.negative = true := by
  have hvalue : (0 : ℚ) < b.mantissa * 2 ^ b.exponent := by positivity
  unfold Binary.value
  rw [mul_assoc]
  cases b.negative with
  | true => simpa using hvalue
  | false => simpa using hvalue.le

/-- A positive number is unpacked into a form without a sign. -/
theorem exists_unpack_of_pos {x : Float} {v : ℚ} (hx : rational? x = some v) (hpos : 0 < v) :
    ∃ mantissa exponent, ∃ h : 0 < mantissa,
      x.toModel.unpack = .finite .positive mantissa exponent h ∧ Canonical mantissa exponent ∧
        v = mantissa * 2 ^ exponent := by
  obtain ⟨sign, mantissa, exponent, hmantissa, hform, rfl⟩ := exists_unpack_of_ne_zero hx hpos.ne'
  cases sign with
  | positive =>
    exact ⟨mantissa, exponent, hmantissa, hform, (canonical_unpack hform).1,
      value_positive mantissa exponent⟩
  | negative =>
    have hneg := (@Binary.value_neg_iff ⟨isNegative .negative, mantissa, exponent⟩ hmantissa).2 rfl
    exact absurd hpos hneg.not_gt

/-- Canonical forms of one value are the same. -/
theorem Canonical.unique {m n : ℕ} {d e : ℤ} (hm : Canonical m d) (hn : Canonical n e)
    (hpos : 0 < m) (hpos' : 0 < n) (h : (m : ℚ) * 2 ^ d = n * 2 ^ e) : m = n ∧ d = e := by
  have hexponent : d = e := by rw [← hm.lastPlace_eq hpos, h, hn.lastPlace_eq hpos']
  subst hexponent
  have hmantissa := mul_right_cancel₀ (by positivity) h
  exact ⟨by exact_mod_cast hmantissa, rfl⟩

/-- A positive number is the nearest one for what rounds to its value. -/
theorem Nearest.eq_iff {q v : ℚ} {x y : Float} (h : Nearest q y) (hq : 0 ≤ q)
    (hx : rational? x = some v) (hpos : 0 < v) : y = x ↔ Rounds q v := by
  obtain ⟨m, e, hm, hunpack, hcanonical, rfl⟩ := exists_unpack_of_pos hx hpos
  obtain ⟨form, hform, rfl⟩ := h
  constructor
  · intro heq
    have hsame : UnpackedFloat.unpack Format.binary64 (UnpackedFloat.pack Format.binary64 form) =
        .finite .positive m e hm := by
      rw [← hunpack, ← heq]
      rfl
    cases hform with
    | zero h =>
      rw [UnpackedFloat.pack, unpack_packedZero] at hsame
      cases hsame
    | @finite m' e' hpos' hcanonical' h =>
      by_cases hlarge : 971 < e'
      · rw [pack_of_large hpos' hlarge, unpack_packedInfinity] at hsame
        cases hsame
      · rw [unpack_pack hpos' hcanonical' (not_lt.1 hlarge)] at hsame
        injection hsame with _ hmantissa hexponent'
        rwa [← hmantissa, ← hexponent']
  · intro hrounds
    rw [← ofModel_pack_unpack x, hunpack]
    cases hform with
    | zero h => exact absurd (h.unique hq hrounds) hpos.ne
    | finite hpos' hcanonical' h =>
      obtain ⟨rfl, rfl⟩ := hcanonical'.unique hcanonical hpos' hm (h.unique hq hrounds)
      rfl

theorem Nearest.beq_iff {q v : ℚ} {x y : Float} (h : Nearest q y) (hq : 0 ≤ q)
    (hx : rational? x = some v) (hpos : 0 < v) : y == x ↔ Rounds q v := by
  rw [Float.beq_iff_ne_nan_and_eq, ← h.eq_iff hq hx hpos]
  have hother {z : Float} (hz : ∀ w ∈ rational? z, w = 0) : x ≠ z := by
    rintro rfl
    exact hpos.ne' (hz v hx)
  have hnan : x ≠ Float.nan := hother (by decide +kernel)
  constructor
  · rintro ⟨-, -, heq | ⟨-, heq⟩ | ⟨-, heq⟩⟩
    · exact heq
    · exact absurd heq (hother (by decide +kernel))
    · exact absurd heq (hother (by decide +kernel))
  · rintro rfl
    exact ⟨hnan, hnan, .inl rfl⟩

theorem nearest_mul {x y : Float} {a b : ℚ} (hx : rational? x = some a) (hy : rational? y = some b)
    (ha : 1 ≤ a) (hb : 0 < b) : Nearest (a * b) (x * y) := by
  obtain ⟨m, d, hm, hunpack, hcanonical, rfl⟩ := exists_unpack_of_pos hx (by linarith)
  obtain ⟨n, e, hn, hunpack', -, rfl⟩ := exists_unpack_of_pos hy hb
  have hfull : 2 ^ 52 ≤ m := by
    refine hcanonical.full.resolve_right fun hleast => ?_
    have hmantissa : (m : ℚ) < 2 ^ (1074 : ℤ) := by
      have : (m : ℚ) < 2 ^ (53 : ℤ) := by exact_mod_cast hcanonical.lt
      exact this.trans_le (zpow_le_zpow_right₀ (by norm_num) (by norm_num))
    rw [hleast, zpow_neg, ← div_eq_mul_inv, one_le_div (by positivity)] at ha
    linarith
  have hproduct := mul_roundsTo hm hn d e (hfull.trans (Nat.le_mul_of_pos_right m hn))
  rw [← hunpack, ← hunpack'] at hproduct
  exact ⟨_, hproduct, rfl⟩

theorem nearest_div {x y : Float} {a b : ℚ} (hx : rational? x = some a) (hy : rational? y = some b)
    (ha : 0 < a) (hb : 0 < b) : Nearest (a / b) (x / y) := by
  obtain ⟨m, d, hm, hunpack, -, rfl⟩ := exists_unpack_of_pos hx ha
  obtain ⟨n, e, hn, hunpack', -, rfl⟩ := exists_unpack_of_pos hy hb
  have hquotient := div_roundsTo hm hn d e
  rw [← hunpack, ← hunpack'] at hquotient
  exact ⟨_, hquotient, rfl⟩

/-! ### Numbers out of range -/

theorem Rounds.large {q r : ℚ} (h : Rounds q r) (hlarge : 2 ^ (1024 : ℤ) ≤ q) :
    2 ^ (1024 : ℤ) ≤ r := by
  have hpos : 0 < q := lt_of_lt_of_le (by positivity) hlarge
  have hplace : 972 ≤ lastPlace q := le_lastPlace (by rwa [abs_of_pos hpos])
  have hfull := (lastPlace_bounds hpos).2.resolve_right (by omega)
  rw [le_div_iff₀ (by positivity)] at hfull
  have hle := @Rounds.ge_of_multiple _ _ h (2 ^ 52) (by exact_mod_cast hfull)
  calc (2 : ℚ) ^ (1024 : ℤ) ≤ 2 ^ (52 + lastPlace q) :=
        zpow_le_zpow_right₀ (by norm_num) (by omega)
    _ = 2 ^ 52 * 2 ^ lastPlace q := by rw [zpow_add₀ (by norm_num)]; norm_num
    _ ≤ r := by exact_mod_cast hle

/-- Infinity is the nearest number for what is too large. -/
theorem nearest_infinity {q : ℚ} (hlarge : 2 ^ (1024 : ℤ) ≤ q) :
    Nearest q (.ofModel (.pack (.infinity .positive))) := by
  have hpos : 0 < q := lt_of_lt_of_le (by positivity) hlarge
  obtain ⟨form, hform⟩ := exists_roundsTo hpos.le
  refine ⟨form, hform, ?_⟩
  cases hform with
  | zero h => exact absurd (h.large hlarge) (not_le.2 (by positivity))
  | @finite mantissa exponent hmantissa hcanonical h =>
    have hexponent : 971 < exponent := by
      by_contra hle
      have hbits : (mantissa : ℚ) < 2 ^ (53 : ℤ) := by exact_mod_cast hcanonical.lt
      refine absurd (h.large hlarge) (not_le.2 ?_)
      calc (mantissa : ℚ) * 2 ^ exponent < 2 ^ (53 : ℤ) * 2 ^ exponent := by gcongr
        _ = 2 ^ (53 + exponent) := by rw [← zpow_add₀ (by norm_num)]
        _ ≤ 2 ^ (1024 : ℤ) := zpow_le_zpow_right₀ (by norm_num) (by omega)
    exact (Float.toBits_inj.1 (congrArg UInt64.ofBitVec (pack_of_large hmantissa hexponent))).symm

theorem rounds_zero_of_small {q : ℚ} (hpos : 0 < q) (hsmall : q < 2 ^ (-1075 : ℤ)) :
    Rounds q 0 := by
  have hlog : Int.log 2 q < -1075 :=
    (Int.lt_zpow_iff_log_lt (by norm_num) hpos).1 (by exact_mod_cast hsmall)
  have hplace : lastPlace q = -1074 := by
    unfold lastPlace
    rw [abs_of_pos hpos]
    omega
  have hhalf : (2 : ℚ) ^ (-1074 : ℤ) / 2 = 2 ^ (-1075 : ℤ) := by
    rw [div_eq_iff (by norm_num), ← zpow_add_one₀ (by norm_num)]
    norm_num
  unfold Rounds
  rw [hplace, hhalf, sub_zero, abs_of_pos hpos]
  exact ⟨0, by simp, hsmall.le, fun htie => absurd htie hsmall.ne⟩

/-! ### Reading decimals -/

/-- The rational number that a decimal denotes. -/
def Decimal.value (d : Decimal) : ℚ :=
  d.significand * 10 ^ d.exponent

/-- A decimal with too small a power of ten is nearer to zero than to any other number. -/
theorem rounds_zero_of_exponent_lt {m : ℕ} (hm : 0 < m) {e : ℤ} (he : e < -(2048 + m.log2)) :
    Rounds ((m : ℚ) * 10 ^ e) 0 := by
  have hmost : (m : ℚ) < 2 ^ (m.log2 + 1 : ℤ) := by exact_mod_cast @Nat.lt_log2_self m
  have hscale : (10 : ℚ) ^ e ≤ 2 ^ e := by
    obtain ⟨n, hn⟩ := Int.eq_ofNat_of_zero_le (show 0 ≤ -e by omega)
    rw [show e = -(n : ℤ) by omega, zpow_neg, zpow_neg, zpow_natCast, zpow_natCast]
    gcongr
    norm_num
  apply rounds_zero_of_small (by positivity)
  calc (m : ℚ) * 10 ^ e < 2 ^ (m.log2 + 1 : ℤ) * 2 ^ e :=
        mul_lt_mul hmost hscale (by positivity) (by positivity)
    _ = 2 ^ (m.log2 + 1 + e : ℤ) := by rw [← zpow_add₀ (by norm_num)]
    _ ≤ 2 ^ (-1075 : ℤ) := zpow_le_zpow_right₀ (by norm_num) (by omega)

/-- A decimal with a power of ten above one is a product. -/
theorem mul_power_roundsTo {m n : ℕ} (hm : 0 < m <<< 53) (hn : 0 < 10 ^ n) :
    RoundsTo (m * 10 ^ (n : ℤ)) (UnpackedFloat.mul Format.binary64
      (.finite .positive (m <<< 53) (-53) hm) (.finite .positive (10 ^ n) 0 hn)) := by
  have hshift : (m <<< 53 : ℕ) = m * 2 ^ 53 := Nat.shiftLeft_eq m 53
  have hpos : 0 < m := Nat.pos_of_mul_pos_right (hshift ▸ hm)
  have hfull : 2 ^ 52 ≤ m <<< 53 * 10 ^ n := by
    rw [hshift]
    calc 2 ^ 52 ≤ 1 * 2 ^ 53 * 1 := by norm_num
      _ ≤ m * 2 ^ 53 * 10 ^ n := by gcongr <;> omega
  have hproduct := mul_roundsTo hm hn (-53) 0 hfull
  have hvalue : ((m <<< 53 : ℕ) : ℚ) * 2 ^ (-53 : ℤ) * ((10 ^ n : ℕ) * 2 ^ (0 : ℤ)) =
      m * 10 ^ (n : ℤ) := by
    rw [hshift, zpow_zero, mul_one, zpow_neg, zpow_ofNat, zpow_natCast]
    push_cast
    field_simp
    norm_num
  rwa [hvalue] at hproduct

/-- A decimal with a power of ten below one is a quotient. -/
theorem div_power_roundsTo {m n : ℕ} (hm : 0 < m) (hn : 0 < 10 ^ n) :
    RoundsTo (m * 10 ^ (-n : ℤ)) (UnpackedFloat.div Format.binary64
      (.finite .positive m 0 hm) (.finite .positive (10 ^ n) 0 hn)) := by
  have hquotient := div_roundsTo hm hn 0 0
  have hvalue : (m : ℚ) * 2 ^ (0 : ℤ) / ((10 ^ n : ℕ) * 2 ^ (0 : ℤ)) = m * 10 ^ (-n : ℤ) := by
    rw [zpow_zero, mul_one, mul_one, zpow_neg, zpow_natCast, div_eq_mul_inv]
    push_cast
    rfl
  rwa [hvalue] at hquotient

theorem nearest_model_ofScientific (m : ℕ) (e : ℤ) :
    Nearest (m * 10 ^ e) (.ofModel (.ofScientific m e)) := by
  have hexponent : (2 : ℤ) ^ Format.binary64.exponentBits = 2048 := by decide
  unfold Float.Model.ofScientific UnpackedFloat.ofScientific
  rw [hexponent]
  split_ifs with hm hlarge hsmall hnonneg
  · rw [hm, Nat.cast_zero, zero_mul]
    exact ⟨_, .zero rounds_zero, rfl⟩
  · apply nearest_infinity
    have hone : (1 : ℚ) ≤ m := by exact_mod_cast Nat.pos_of_ne_zero hm
    calc (2 : ℚ) ^ (1024 : ℤ) ≤ 10 ^ (1024 : ℤ) := by
          rw [zpow_ofNat, zpow_ofNat]
          gcongr
          norm_num
      _ ≤ 10 ^ e := zpow_le_zpow_right₀ (by norm_num) (by omega)
      _ ≤ m * 10 ^ e := le_mul_of_one_le_left (by positivity) hone
  · exact ⟨_, .zero (rounds_zero_of_exponent_lt (Nat.pos_of_ne_zero hm) hsmall), rfl⟩
  · obtain ⟨n, rfl⟩ := Int.eq_ofNat_of_zero_le hnonneg
    exact ⟨_, mul_power_roundsTo _ _, rfl⟩
  · obtain ⟨n, hn⟩ := Int.eq_ofNat_of_zero_le (show 0 ≤ -e by omega)
    obtain rfl : e = -(n : ℤ) := by omega
    simp only [hn]
    exact ⟨_, div_power_roundsTo _ _, rfl⟩

/-- An integer that fits into the mantissa is a number. -/
theorem rational?_toFloat {m : ℕ} (hlt : m < 2 ^ 53) :
    rational? m.toUInt64.toFloat = some (m : ℚ) := by
  have hmod : m.toUInt64.toNat = m := by
    rw [Nat.toUInt64_eq, UInt64.toNat_ofNat', Nat.mod_eq_of_lt (by omega)]
  have habs : |(m : ℚ)| = m := abs_of_nonneg (by positivity)
  have hbound : (m : ℚ) < 2 ^ 53 := by exact_mod_cast hlt
  obtain ⟨r, hdenotes, hrounds⟩ := normalize_rounds m 0 .positive
  rw [zpow_zero, mul_one, Int.cast_natCast] at hrounds
  have hplace : lastPlace m ≤ 0 := lastPlace_le le_rfl (by rw [habs]; exact_mod_cast hbound)
  obtain ⟨k, hk⟩ := exists_multiple_of_le m hplace
  rw [zpow_zero, mul_one, Int.cast_natCast] at hk
  rw [hrounds.eq_of_multiple hk] at hdenotes
  have hsmall : |(m : ℚ)| < 2 ^ 1024 := by
    rw [habs]
    exact hbound.trans_le (pow_le_pow_right₀ (by norm_num) (by norm_num))
  have hform : m.toUInt64.toFloat =
      .ofModel (.pack (UnpackedFloat.normalize Format.binary64 m 0 .positive)) := by
    change Float.ofModel (.pack (UnpackedFloat.normalize Format.binary64
      (m.toUInt64.toNat : ℤ) 0 .positive)) = _
    rw [hmod]
  rw [hform]
  exact hdenotes.value?_pack hsmall

/-- The powers of ten that are looked up are exact. -/
theorem rational?_powerOfTen {e : ℕ} (h : e < Float.exactlyRepresentablePowersOfTen.size) :
    rational? Float.exactlyRepresentablePowersOfTen[e] = some (10 ^ e) := by
  have hall : ∀ i : Fin 23, (parts? (Float.exactlyRepresentablePowersOfTen[i]).toModel.unpack).any
      (fun b => b.negative = false ∧ -52 ≤ b.exponent ∧
        b.mantissa * 2 ^ (b.exponent + 52).toNat = 10 ^ i.val * 2 ^ 52) := by
    decide +kernel
  have hentry := hall ⟨e, h⟩
  rw [Option.any_eq_true] at hentry
  obtain ⟨b, hb, hparts⟩ := hentry
  obtain ⟨hnegative, hexponent, hvalue⟩ := of_decide_eq_true hparts
  obtain ⟨n, hn⟩ := Int.eq_ofNat_of_zero_le (show 0 ≤ b.exponent + 52 by omega)
  rw [hn, Int.toNat_natCast] at hvalue
  have hcast : (b.mantissa : ℚ) * 2 ^ n = 10 ^ e * 2 ^ 52 := by exact_mod_cast hvalue
  have hplace : b.exponent = n - 52 := by omega
  change parts? (Float.exactlyRepresentablePowersOfTen[e]).toModel.unpack = some b at hb
  rw [rational?, hb, Option.map_some, Binary.value, hnegative, hplace, zpow_sub₀ (by norm_num),
    zpow_natCast]
  simp only [Bool.false_eq_true, if_false, one_mul]
  rw [← mul_div_assoc, hcast, zpow_ofNat, mul_div_cancel_right₀ _ (by positivity)]

theorem nearest_ofScientific (m : ℕ) (below : Bool) (e : ℕ) :
    Nearest (m * 10 ^ (if below then -(e : ℤ) else e)) (Float.ofScientific m below e) := by
  unfold Float.ofScientific
  by_cases hfast : m < 2 ^ 53 ∧ e ≤ 22
  · -- the significand and the power of ten are numbers, and one operation rounds
    have hsize : e < Float.exactlyRepresentablePowersOfTen.size := Nat.lt_succ_of_le hfast.2
    have hpower := rational?_powerOfTen hsize
    have hten : (0 : ℚ) < 10 ^ e := by positivity
    rw [dif_pos hfast]
    rcases Nat.eq_zero_or_pos m with rfl | hpos
    · obtain ⟨t, d, ht, hunpack, -⟩ := exists_unpack_of_pos hpower hten
      have hzero : (0 : ℕ).toUInt64.toFloat.toModel.unpack = .zero .positive := rfl
      rw [Nat.cast_zero, zero_mul]
      refine ⟨.zero .positive, .zero rounds_zero, ?_⟩
      cases below with
      | true =>
        change Float.ofModel (.pack (UnpackedFloat.div Format.binary64 _ _)) = _
        rw [hzero, hunpack]
        rfl
      | false =>
        change Float.ofModel (.pack (UnpackedFloat.mul Format.binary64 _ _)) = _
        rw [hzero, hunpack]
        rfl
    · have hone : (1 : ℚ) ≤ m := by exact_mod_cast hpos
      cases below with
      | true =>
        simp only [if_true, zpow_neg, zpow_natCast, ← div_eq_mul_inv]
        exact nearest_div (rational?_toFloat hfast.1) hpower (by linarith) hten
      | false =>
        simp only [Bool.false_eq_true, if_false, zpow_natCast]
        exact nearest_mul (rational?_toFloat hfast.1) hpower hone hten
  · rw [dif_neg hfast]
    cases below with
    | true =>
      simp only [if_true, Int.negOfNat_eq]
      exact nearest_model_ofScientific m (-(e : ℤ))
    | false => exact nearest_model_ofScientific m e

/-- A decimal is read as the number nearest to its value. -/
theorem Decimal.nearest_toFloat (d : Decimal) : Nearest d.value d.toFloat := by
  obtain ⟨significand, exponent⟩ := d
  unfold Decimal.value Decimal.toFloat
  dsimp only
  split_ifs with hnonneg
  · obtain ⟨n, rfl⟩ := Int.eq_ofNat_of_zero_le hnonneg
    exact nearest_ofScientific significand false n
  · obtain ⟨n, hn⟩ := Int.eq_ofNat_of_zero_le (show 0 ≤ -exponent by omega)
    rw [hn, show exponent = -(n : ℤ) by omega]
    exact nearest_ofScientific significand true n

end Betty.Number
