import Betty.Number.Shortest
import Betty.Proofs.Number.Nearest

/-!
# The shortest decimal

The decimals with a number of digits, near a number, are the points of a grid. What reads back as
the number is an interval around it, so if any point of the grid reads back, one of the two
neighbours of the number does. The grid of seventeen digits is finer than the numbers are apart,
so there one of them always does.

## Main definitions

* `gridBelow`, `gridAbove`: the neighbours of a number on a grid.
* `InDecade`: a positive number with its exact value and its order of magnitude.
* `IsShortest`: the decimals with the fewest digits that read back as a number, and the nearest
  of them.

## Main results

* `decimalOrder_bounds`: the order of magnitude of a number.
* `onGrid?_eq_some`, `onGrid?_eq_none`: what the search on one grid finds.
* `isShortest_shortest`: the decimal that is found is a shortest one.
-/

namespace Betty.Number

/-! ### Orders of magnitude -/

theorem digitCount_le_iff {n k : ℕ} (hk : 0 < k) : digitCount n ≤ k ↔ n < 10 ^ k :=
  Nat.length_toDigits_le_iff (by norm_num) hk

theorem digitCount_pos (n : ℕ) : 0 < digitCount n :=
  Nat.length_toDigits_pos

theorem exists_digitCount {n : ℕ} (hn : 0 < n) :
    ∃ c, digitCount n = c + 1 ∧ 10 ^ c ≤ n ∧ n < 10 ^ (c + 1) := by
  obtain ⟨c, hc⟩ := Nat.exists_eq_succ_of_ne_zero (digitCount_pos n).ne'
  refine ⟨c, hc, ?_, (digitCount_le_iff c.succ_pos).1 hc.le⟩
  rcases c.eq_zero_or_pos with rfl | hpos
  · exact hn
  · by_contra hlt
    have := (digitCount_le_iff hpos).2 (not_le.1 hlt)
    omega

/-- The order of magnitude counts the digits before the point, or the zeros after it. -/
theorem decimalOrder_bounds {num den : ℕ} (hnum : 0 < num) (hden : 0 < den) :
    (10 : ℚ) ^ (decimalOrder num den - 1) ≤ num / den ∧
      (num : ℚ) / den < 10 ^ decimalOrder num den := by
  have hnum' : (0 : ℚ) < num := by exact_mod_cast hnum
  have hden' : (0 : ℚ) < den := by exact_mod_cast hden
  unfold decimalOrder
  split_ifs with hle
  · obtain ⟨c, hc, hlow, hhigh⟩ := exists_digitCount (Nat.div_pos hle hden)
    have hfloor : 10 ^ c * den ≤ num := (Nat.le_div_iff_mul_le hden).1 hlow
    have hceil : num < 10 ^ (c + 1) * den := (Nat.div_lt_iff_lt_mul hden).1 hhigh
    rw [hc, le_div_iff₀ hden', div_lt_iff₀ hden']
    push_cast
    rw [add_sub_cancel_right, ← Nat.cast_succ, zpow_natCast, zpow_natCast]
    exact ⟨by exact_mod_cast hfloor, by exact_mod_cast hceil⟩
  · have hone : 0 < (den - 1) / num := Nat.div_pos (by omega) hnum
    obtain ⟨c, hc, hlow, hhigh⟩ := exists_digitCount hone
    have hfloor : 10 ^ c * num < den := by
      have := (Nat.le_div_iff_mul_le hnum).1 hlow
      omega
    have hceil : den ≤ 10 ^ (c + 1) * num := by
      have := (Nat.div_lt_iff_lt_mul hnum).1 hhigh
      omega
    have horder : (1 : ℤ) - (c + 1 : ℕ) = -c := by omega
    have horder' : -(c : ℤ) - 1 = -(c + 1 : ℕ) := by omega
    rw [hc, horder, horder', zpow_neg, zpow_neg, zpow_natCast, zpow_natCast, ← one_div, ← one_div,
      div_le_div_iff₀ (by positivity) hden', div_lt_div_iff₀ hden' (by positivity), one_mul]
    exact ⟨by rw [mul_comm]; exact_mod_cast hceil, by rw [mul_comm]; exact_mod_cast hfloor⟩

/-! ### Grids -/

/-- The neighbour below `v` on the grid of the multiples of `unit`. -/
def gridBelow (v unit : ℚ) : ℚ :=
  ⌊v / unit⌋ * unit

/-- The neighbour above `v` on the grid of the multiples of `unit`. -/
def gridAbove (v unit : ℚ) : ℚ :=
  (⌊v / unit⌋ + 1) * unit

section Grid

variable {v unit : ℚ}

theorem gridBelow_le (hunit : 0 < unit) : gridBelow v unit ≤ v := by
  unfold gridBelow
  rw [← le_div_iff₀ hunit]
  exact Int.floor_le _

theorem lt_gridAbove (hunit : 0 < unit) : v < gridAbove v unit := by
  unfold gridAbove
  rw [← div_lt_iff₀ hunit]
  exact Int.lt_floor_add_one _

theorem gridAbove_eq : gridAbove v unit = gridBelow v unit + unit := by
  unfold gridAbove gridBelow
  ring

/-- A point of the grid that is not above the number is not above its lower neighbour. -/
theorem le_gridBelow (hunit : 0 < unit) {t : ℤ} (h : t * unit ≤ v) :
    t * unit ≤ gridBelow v unit := by
  have hfloor : t ≤ ⌊v / unit⌋ := Int.le_floor.2 ((le_div_iff₀ hunit).2 h)
  unfold gridBelow
  gcongr

/-- A point of the grid above the number is not below its upper neighbour. -/
theorem gridAbove_le (hunit : 0 < unit) {t : ℤ} (h : v < t * unit) :
    gridAbove v unit ≤ t * unit := by
  have hfloor : ⌊v / unit⌋ < t := Int.floor_lt.2 ((div_lt_iff₀ hunit).2 h)
  have hcast : (⌊v / unit⌋ : ℚ) + 1 ≤ t := by exact_mod_cast Int.add_one_le_of_lt hfloor
  unfold gridAbove
  gcongr

end Grid

/-! ### Decimals on a grid -/

/-- A decimal with at most `digits` digits that is not below the order of magnitude is a point of
the grid. -/
theorem Decimal.exists_multiple {d : Decimal} {digits : ℕ} {order : ℤ} (hpos : 0 < digits)
    (hdigits : digitCount d.significand ≤ digits) (hge : 10 ^ (order - 1) ≤ d.value) :
    ∃ t : ℤ, d.value = t * 10 ^ (order - digits) := by
  obtain ⟨significand, exponent⟩ := d
  unfold Decimal.value at hge ⊢
  dsimp only at hdigits hge ⊢
  have hbound : (significand : ℚ) < 10 ^ (digits : ℤ) := by
    exact_mod_cast (digitCount_le_iff hpos).1 hdigits
  have hlt : (10 : ℚ) ^ (order - 1) < 10 ^ (digits + exponent) := by
    calc (10 : ℚ) ^ (order - 1) ≤ significand * 10 ^ exponent := hge
      _ < 10 ^ (digits : ℤ) * 10 ^ exponent := by gcongr
      _ = 10 ^ (digits + exponent) := by rw [← zpow_add₀ (by norm_num)]
  have hexponent : order - 1 < digits + exponent := (zpow_lt_zpow_iff_right₀ (by norm_num)).1 hlt
  obtain ⟨n, hn⟩ := Int.eq_ofNat_of_zero_le (show 0 ≤ exponent - (order - digits) by omega)
  refine ⟨significand * 10 ^ n, ?_⟩
  rw [show exponent = n + (order - digits) by omega, zpow_add₀ (by norm_num), zpow_natCast]
  push_cast
  ring

section Neighbours

variable {v : ℚ} {order : ℤ} {digits : ℕ} {d : Decimal}

theorem power_eq_multiple (hpos : 0 < digits) (order : ℤ) :
    (10 : ℚ) ^ (order - 1) = (10 ^ (digits - 1) : ℤ) * 10 ^ (order - digits) := by
  push_cast
  rw [← zpow_natCast, ← zpow_add₀ (by norm_num)]
  congr 1
  omega

/-- A decimal below the number is not above the lower neighbour on the grid. -/
theorem Decimal.le_gridBelow (hpos : 0 < digits) (hdigits : digitCount d.significand ≤ digits)
    (hlow : 10 ^ (order - 1) ≤ v) (hle : d.value ≤ v) :
    d.value ≤ gridBelow v (10 ^ (order - digits)) := by
  by_cases hsmall : d.value < 10 ^ (order - 1)
  · refine hsmall.le.trans ?_
    rw [power_eq_multiple hpos] at hlow ⊢
    exact Number.le_gridBelow (by positivity) hlow
  · obtain ⟨t, ht⟩ := Decimal.exists_multiple hpos hdigits (not_lt.1 hsmall)
    rw [ht] at hle ⊢
    exact Number.le_gridBelow (by positivity) hle

/-- A decimal above the number is not below the upper neighbour on the grid. -/
theorem Decimal.gridAbove_le (hpos : 0 < digits) (hdigits : digitCount d.significand ≤ digits)
    (hlow : 10 ^ (order - 1) ≤ v) (hlt : v < d.value) :
    gridAbove v (10 ^ (order - digits)) ≤ d.value := by
  obtain ⟨t, ht⟩ := Decimal.exists_multiple hpos hdigits (hlow.trans hlt.le)
  rw [ht] at hlt ⊢
  exact Number.gridAbove_le (by positivity) hlt

end Neighbours

/-! ### The search on a grid -/

theorem scaleFraction_value (num : ℕ) {den : ℕ} (hden : 0 < den) (power : ℤ) :
    ((scaleFraction num den power).1 : ℚ) / (scaleFraction num den power).2 =
      num / den * 10 ^ power ∧ 0 < (scaleFraction num den power).2 := by
  unfold scaleFraction
  split_ifs with hnonneg
  · obtain ⟨n, rfl⟩ := Int.eq_ofNat_of_zero_le hnonneg
    refine ⟨?_, hden⟩
    rw [zpow_natCast, Int.toNat_natCast, Nat.pow_eq]
    push_cast
    ring
  · obtain ⟨n, hn⟩ := Int.eq_ofNat_of_zero_le (show 0 ≤ -power by omega)
    refine ⟨?_, Nat.mul_pos hden (Nat.pow_pos (by norm_num))⟩
    rw [hn, show power = -(n : ℤ) by omega, zpow_neg, zpow_natCast, Int.toNat_natCast, Nat.pow_eq]
    push_cast
    rw [div_mul_eq_div_div, div_eq_mul_inv]

theorem gridPoint_value (digits : ℕ) (order : ℤ) (significand : ℕ) :
    (gridPoint digits order significand).value = significand * 10 ^ (order - digits) := by
  unfold gridPoint Decimal.value
  split_ifs with hpower
  · dsimp only
    rw [hpower, Nat.pow_eq, zpow_sub₀ (by norm_num), zpow_natCast]
    push_cast
    field_simp
  · rfl

/-- The two points that are tried are the neighbours of the number, and the remainder tells which
of them is nearer. -/
theorem gridPoint_neighbours {num den : ℕ} (hden : 0 < den) (order : ℤ) (digits : ℕ)
    {top bottom : ℕ} (hscale : scaleFraction num den (digits - order) = (top, bottom)) {v : ℚ}
    (hv : v = num / den) :
    (gridPoint digits order (top / bottom)).value = gridBelow v (10 ^ (order - digits)) ∧
      (gridPoint digits order (top / bottom + 1)).value = gridAbove v (10 ^ (order - digits)) ∧
      (2 * (top % bottom) < bottom ↔ v - gridBelow v (10 ^ (order - digits)) <
        gridAbove v (10 ^ (order - digits)) - v) := by
  obtain ⟨hquotient, hbottom⟩ := scaleFraction_value num hden (digits - order)
  rw [hscale] at hquotient hbottom
  dsimp only at hquotient hbottom
  have hunit : (0 : ℚ) < 10 ^ (order - digits) := by positivity
  have hunits : v / 10 ^ (order - digits) = (top : ℚ) / bottom := by
    rw [hquotient, hv, div_eq_mul_inv _ ((10 : ℚ) ^ (order - digits)), ← zpow_neg, neg_sub]
  have hfloor : ⌊v / 10 ^ (order - digits)⌋ = (top / bottom : ℕ) := by
    rw [hunits]
    exact Rat.floor_natCast_div_natCast top bottom
  rw [natCast_div_eq top hbottom] at hunits
  rw [gridPoint_value, gridPoint_value, gridAbove_eq, gridBelow, hfloor, Int.cast_natCast]
  generalize (10 : ℚ) ^ (order - digits) = unit at *
  refine ⟨rfl, by rw [Nat.cast_succ]; ring, ?_⟩
  -- the remainder is what the number is above its lower neighbour, in parts of the unit
  have hbottom' : (0 : ℚ) < bottom := by exact_mod_cast hbottom
  have hrest : v - (top / bottom : ℕ) * unit = (top % bottom : ℕ) / bottom * unit := by
    rw [(div_eq_iff hunit.ne').1 hunits]
    ring
  have hhalf : 2 * (top % bottom) < bottom ↔ ((top % bottom : ℕ) : ℚ) / bottom < 1 / 2 := by
    rw [div_lt_div_iff₀ hbottom' (by norm_num), mul_comm 2, one_mul]
    exact_mod_cast Iff.rfl
  rw [hhalf, ← mul_lt_mul_iff_left₀ hunit, ← hrest]
  constructor <;> intro h <;> linarith

theorem digitCount_gridPoint_le {digits significand : ℕ} (order : ℤ) (hpos : 0 < digits)
    (hle : significand ≤ 10 ^ digits) :
    digitCount (gridPoint digits order significand).significand ≤ digits := by
  unfold gridPoint
  split_ifs with hpower
  · exact (digitCount_le_iff hpos).2 (Nat.one_lt_pow hpos.ne' (by norm_num))
  · exact (digitCount_le_iff hpos).2 (lt_of_le_of_ne hle hpower)

theorem Decimal.value_nonneg (d : Decimal) : 0 ≤ d.value := by
  unfold Decimal.value
  positivity

/-- The positive number `x` has the value `v = num / den`, and the digits of this value start just
below `10 ^ order`. -/
structure InDecade (x : Float) (v : ℚ) (num den : ℕ) (order : ℤ) : Prop where
  value : rational? x = some v
  pos : 0 < v
  den_pos : 0 < den
  fraction : v = num / den
  low : 10 ^ (order - 1) ≤ v
  high : v < 10 ^ order

theorem inDecade_decimalOrder {x : Float} {b : Binary}
    (hx : rational? x = some ((b.mantissa : ℚ) * 2 ^ b.exponent)) (hm : 0 < b.mantissa) :
    InDecade x (b.mantissa * 2 ^ b.exponent) b.fraction.1 b.fraction.2
      (decimalOrder b.fraction.1 b.fraction.2) := by
  have hpos : (0 : ℚ) < b.mantissa * 2 ^ b.exponent := by positivity
  obtain ⟨hv, hden⟩ := b.fraction_value
  have hnum : 0 < b.fraction.1 := by
    by_contra hzero
    rw [hv, Nat.eq_zero_of_not_pos hzero, Nat.cast_zero, zero_div] at hpos
    exact hpos.false
  obtain ⟨hlow, hhigh⟩ := decimalOrder_bounds hnum hden
  rw [← hv] at hlow hhigh
  exact ⟨hx, hpos, hden, hv, hlow, hhigh⟩

section Search

variable {x : Float} {num den : ℕ} {v : ℚ} {order : ℤ} {digits : ℕ}
  (hdecade : InDecade x v num den order) (hdigits : 0 < digits)

include hdecade hdigits

/-- The neighbours of the number on a grid are tried: what is found is one that reads back, and
the nearer one if both do. -/
theorem onGrid?_cases :
    ∃ low high : Decimal, low.value = gridBelow v (10 ^ (order - digits)) ∧
      high.value = gridAbove v (10 ^ (order - digits)) ∧
      digitCount low.significand ≤ digits ∧ digitCount high.significand ≤ digits ∧
      ((onGrid? x num den order digits = some low ∧ Rounds low.value v ∧
          (Rounds high.value v → v - low.value ≤ high.value - v)) ∨
        (onGrid? x num den order digits = some high ∧ Rounds high.value v ∧
          (Rounds low.value v → high.value - v ≤ v - low.value)) ∨
        (onGrid? x num den order digits = none ∧ ¬ Rounds low.value v ∧
          ¬ Rounds high.value v)) := by
  obtain ⟨⟨top, bottom⟩, hscale⟩ : ∃ scaled, scaleFraction num den (digits - order) = scaled :=
    ⟨_, rfl⟩
  obtain ⟨hlow, habove, hnearer⟩ := gridPoint_neighbours hdecade.den_pos order digits hscale
    hdecade.fraction
  have hbound : top / bottom < 10 ^ digits := by
    have hle : gridBelow v (10 ^ (order - digits)) < 10 ^ order :=
      (gridBelow_le (by positivity)).trans_lt hdecade.high
    rw [← hlow, gridPoint_value, zpow_sub₀ (by norm_num), zpow_natCast, ← mul_div_assoc,
      div_lt_iff₀ (by positivity), mul_comm, mul_lt_mul_iff_right₀ (by positivity)] at hle
    exact_mod_cast hle
  refine ⟨_, _, hlow, habove, digitCount_gridPoint_le order hdigits hbound.le,
    digitCount_gridPoint_le order hdigits hbound, ?_⟩
  rw [← hlow, ← habove] at hnearer
  unfold onGrid?
  rw [hscale]
  dsimp only
  generalize gridPoint digits order (top / bottom) = low at *
  generalize gridPoint digits order (top / bottom + 1) = high at *
  have hlowReads := low.nearest_toFloat.beq_iff low.value_nonneg hdecade.value hdecade.pos
  have hhighReads := high.nearest_toFloat.beq_iff high.value_nonneg hdecade.value hdecade.pos
  rw [← hlowReads, ← hhighReads]
  cases low.toFloat == x <;> cases high.toFloat == x
  · simp
  · simp
  · simp
  · by_cases hless : 2 * (top % bottom) < bottom
    · simp [hless, (hnearer.1 hless).le]
    · simp [hless, not_lt.1 (mt hnearer.2 hless)]

/-- If any decimal with so many digits reads back, so does the neighbour on its side, which is not
farther away. -/
theorem rounds_neighbour {c : Decimal} (hcount : digitCount c.significand ≤ digits)
    (hc : Rounds c.value v) :
    (Rounds (gridBelow v (10 ^ (order - digits))) v ∧
        v - gridBelow v (10 ^ (order - digits)) ≤ |c.value - v|) ∨
      (Rounds (gridAbove v (10 ^ (order - digits))) v ∧
        gridAbove v (10 ^ (order - digits)) - v ≤ |c.value - v|) := by
  have hself := (denotes_unpack hdecade.value).1.rounds_self
  have hunit : (0 : ℚ) < 10 ^ (order - digits) := by positivity
  rcases le_or_gt c.value v with hle | hlt
  · left
    have hbelow := Decimal.le_gridBelow hdigits hcount hdecade.low hle
    refine ⟨hc.between hself c.value_nonneg hbelow (gridBelow_le hunit), ?_⟩
    rw [abs_of_nonpos (by linarith)]
    linarith
  · right
    have habove := Decimal.gridAbove_le hdigits hcount hdecade.low hlt
    refine ⟨hself.between hc hdecade.pos.le (lt_gridAbove hunit).le habove, ?_⟩
    rw [abs_of_pos (by linarith)]
    linarith

/-- What is found on a grid reads back, and it is nearest of the decimals with so many digits that
do. -/
theorem onGrid?_eq_some {d : Decimal} (h : onGrid? x num den order digits = some d) :
    digitCount d.significand ≤ digits ∧ Rounds d.value v ∧
      ∀ c : Decimal, digitCount c.significand ≤ digits → Rounds c.value v →
        |d.value - v| ≤ |c.value - v| := by
  obtain ⟨low, high, hbelow, habove, hlowCount, hhighCount, hfound⟩ :=
    onGrid?_cases hdecade hdigits
  have hunit : (0 : ℚ) < 10 ^ (order - digits) := by positivity
  have hneighbour (c : Decimal) := @rounds_neighbour _ _ _ _ _ _ hdecade hdigits c
  have hle : low.value ≤ v := hbelow ▸ gridBelow_le hunit
  have hlt : v < high.value := habove ▸ lt_gridAbove hunit
  rw [← hbelow, ← habove] at hneighbour
  rcases hfound with ⟨hsome, hreads, hnearer⟩ | ⟨hsome, hreads, hnearer⟩ | ⟨hnone, -⟩
  · cases h.symm.trans hsome
    refine ⟨hlowCount, hreads, fun c hcount hc => ?_⟩
    rw [abs_of_nonpos (by linarith), neg_sub]
    rcases hneighbour c hcount hc with ⟨-, hfar⟩ | ⟨hother, hfar⟩
    · exact hfar
    · exact (hnearer hother).trans hfar
  · cases h.symm.trans hsome
    refine ⟨hhighCount, hreads, fun c hcount hc => ?_⟩
    rw [abs_of_pos (by linarith)]
    rcases hneighbour c hcount hc with ⟨hother, hfar⟩ | ⟨-, hfar⟩
    · exact (hnearer hother).trans hfar
    · exact hfar
  · cases h.symm.trans hnone

/-- Where nothing is found on a grid, neither neighbour reads back. -/
theorem onGrid?_eq_none (h : onGrid? x num den order digits = none) :
    ¬ Rounds (gridBelow v (10 ^ (order - digits))) v ∧
      ¬ Rounds (gridAbove v (10 ^ (order - digits))) v := by
  obtain ⟨low, high, hbelow, habove, -, -, hfound⟩ := onGrid?_cases hdecade hdigits
  rw [← hbelow, ← habove]
  rcases hfound with ⟨hsome, -⟩ | ⟨hsome, -⟩ | ⟨-, hneither⟩
  · cases h.symm.trans hsome
  · cases h.symm.trans hsome
  · exact hneither

end Search

/-! ### Seventeen digits -/

section Near

variable {m : ℕ} {e : ℤ} {y : ℚ}

/-- What is less than half a unit of the last place away from a multiple of it rounds to it. -/
theorem rounds_of_near (hplace : lastPlace y = e) (hnear : |y - m * 2 ^ e| < 2 ^ e / 2) :
    Rounds y (m * 2 ^ e) := by
  rw [← hplace] at hnear ⊢
  exact ⟨m, by push_cast; rfl, hnear.le, fun htie => absurd htie hnear.ne⟩

theorem rounds_of_near_above (hform : Canonical m e) (hm : 0 < m) (hle : m * 2 ^ e ≤ y)
    (hnear : y - m * 2 ^ e < 2 ^ e / 2) : Rounds y (m * 2 ^ e) := by
  have hvalue : (0 : ℚ) < m * 2 ^ e := by positivity
  have hscale : (0 : ℚ) < 2 ^ e := by positivity
  have hplace : lastPlace y = e := by
    apply le_antisymm
    · have hmantissa : (m : ℚ) + 1 ≤ 2 ^ (53 : ℤ) := by exact_mod_cast hform.lt
      have hbound : y < 2 ^ (53 + e) := by
        calc y < (m + 1) * 2 ^ e := by linarith
          _ ≤ 2 ^ (53 : ℤ) * 2 ^ e := by gcongr
          _ = 2 ^ (53 + e) := by rw [← zpow_add₀ (by norm_num)]
      have hlog : Int.log 2 y < 53 + e :=
        (Int.lt_zpow_iff_log_lt (by norm_num) (hvalue.trans_le hle)).1 (by exact_mod_cast hbound)
      have hge := hform.ge
      unfold lastPlace
      rw [abs_of_pos (hvalue.trans_le hle)]
      omega
    · calc e = lastPlace (m * 2 ^ e) := (hform.lastPlace_eq hm).symm
        _ ≤ lastPlace y := lastPlace_mono hvalue hle
  exact rounds_of_near hplace (by rwa [abs_of_nonneg (by linarith)])

/-- Below the least full mantissa the numbers are closer; elsewhere they are equally far apart on
both sides. -/
theorem rounds_of_near_below (hform : Canonical m e) (hm : 0 < m) (hne : m ≠ 2 ^ 52) (hpos : 0 < y)
    (hle : y ≤ m * 2 ^ e) (hnear : m * 2 ^ e - y < 2 ^ e / 2) : Rounds y (m * 2 ^ e) := by
  have hscale : (0 : ℚ) < 2 ^ e := by positivity
  have hplace : lastPlace y = e := by
    apply le_antisymm
    · calc lastPlace y ≤ lastPlace (m * 2 ^ e) := lastPlace_mono hpos hle
        _ = e := hform.lastPlace_eq hm
    · rcases hform.full with hfull | hleast
      · have hmantissa : (2 : ℚ) ^ (52 : ℤ) + 1 ≤ m := by
          exact_mod_cast lt_of_le_of_ne hfull (Ne.symm hne)
        have hgrid : ((2 : ℚ) ^ (52 : ℤ) + 1) * 2 ^ e ≤ m * 2 ^ e := by gcongr
        apply le_lastPlace
        rw [abs_of_pos hpos, zpow_add₀ (by norm_num)]
        linarith
      · rw [hleast]
        exact le_max_right _ _
  refine rounds_of_near hplace ?_
  rwa [abs_of_nonpos (by linarith), neg_sub]

end Near

/-- On the grid of seventeen digits a neighbour of the number reads back. -/
theorem rounds_seventeen {x : Float} {v : ℚ} (hx : rational? x = some v) (hpos : 0 < v)
    {order : ℤ} (hlow : 10 ^ (order - 1) ≤ v) :
    Rounds (gridBelow v (10 ^ (order - (17 : ℕ)))) v ∨
      Rounds (gridAbove v (10 ^ (order - (17 : ℕ)))) v := by
  obtain ⟨m, e, hm, -, hform, rfl⟩ := exists_unpack_of_pos hx hpos
  have hunit : (0 : ℚ) < 10 ^ (order - (17 : ℕ)) := by positivity
  have hscale : (0 : ℚ) < 2 ^ e := by positivity
  rw [@power_eq_multiple 17 (by norm_num)] at hlow
  have hbelow := le_gridBelow hunit hlow
  generalize (10 : ℚ) ^ (order - (17 : ℕ)) = unit at *
  have hbelow' := @gridBelow_le (m * 2 ^ e) unit hunit
  have habove := @lt_gridAbove (m * 2 ^ e) unit hunit
  have hapart := @gridAbove_eq (m * 2 ^ e) unit
  push_cast at hlow hbelow
  by_cases hleast : m = 2 ^ 52
  · right
    have hfine : unit < 2 ^ e / 2 := by
      have hmantissa : (m : ℚ) = 2 ^ 52 := by exact_mod_cast hleast
      rw [hmantissa] at hlow
      norm_num at hlow
      linarith
    exact rounds_of_near_above hform hm habove.le (by linarith)
  · have hmantissa : (m : ℚ) < 2 ^ 53 := by exact_mod_cast hform.lt
    have hfine : unit < 2 ^ e := by
      have : (m : ℚ) * 2 ^ e < 2 ^ 53 * 2 ^ e := by gcongr
      norm_num at this hlow
      linarith
    by_cases hnear : m * 2 ^ e - gridBelow (m * 2 ^ e) unit ≤ unit / 2
    · left
      refine rounds_of_near_below hform hm hleast ?_ hbelow' (by linarith)
      exact lt_of_lt_of_le (by positivity) hbelow
    · right
      exact rounds_of_near_above hform hm habove.le (by linarith)

/-! ### The shortest decimal -/

/-- A decimal with the fewest digits that reads back as a number, and the nearest of those with
so few digits. -/
structure IsShortest (x : Float) (d : Decimal) : Prop where
  reads : d.toFloat = x
  digits_le : digitCount d.significand ≤ 17
  fewest : ∀ c : Decimal, c.toFloat = x → digitCount d.significand ≤ digitCount c.significand
  nearest : ∀ v, rational? x = some v → ∀ c : Decimal, c.toFloat = x →
    digitCount c.significand = digitCount d.significand → |d.value - v| ≤ |c.value - v|

theorem Decimal.toFloat_eq_iff {x : Float} {v : ℚ} (hx : rational? x = some v) (hpos : 0 < v)
    (d : Decimal) : d.toFloat = x ↔ Rounds d.value v :=
  d.nearest_toFloat.eq_iff d.value_nonneg hx hpos

/-- The first index at which something is found. -/
theorem exists_findSome?_range' {α : Type} {f : ℕ → Option α} {count : ℕ} (hpos : 0 < count)
    (h : f count ≠ none) (other : α) :
    ∃ n, 0 < n ∧ n ≤ count ∧ f n = some (((List.range' 1 count).findSome? f).getD other) ∧
      ∀ i, 0 < i → i < n → f i = none := by
  cases hfound : (List.range' 1 count).findSome? f with
  | none =>
    rw [List.findSome?_eq_none_iff] at hfound
    exact absurd (hfound count (List.mem_range'_1.2 ⟨hpos, by omega⟩)) h
  | some found =>
    obtain ⟨before, n, after, hsplit, hn, hnone⟩ := List.findSome?_eq_some_iff.1 hfound
    have hmem : n ∈ List.range' 1 count := by rw [hsplit]; simp
    rw [List.mem_range'_1] at hmem
    refine ⟨n, by omega, by omega, hn, fun i hi hlt => hnone i ?_⟩
    have hi' : i ∈ List.range' 1 count := List.mem_range'_1.2 ⟨hi, by omega⟩
    have hsorted : (List.range' 1 count).Pairwise (· < ·) := List.pairwise_lt_range' 1
    rw [hsplit] at hi' hsorted
    rcases List.mem_append.1 hi' with hbefore | hrest
    · exact hbefore
    · rcases List.mem_cons.1 hrest with rfl | hlater
      · omega
      · have := List.rel_of_pairwise_cons (List.pairwise_append.1 hsorted).2.1 hlater
        omega

/-- The grids are searched in turn, so what is found first has the fewest digits. -/
theorem InDecade.isShortest {x : Float} {v : ℚ} {num den : ℕ} {order : ℤ}
    (hdecade : InDecade x v num den order) (other : Decimal) :
    IsShortest x (((List.range' 1 17).findSome? (onGrid? x num den order)).getD other) := by
  have hreads_iff (c : Decimal) := c.toFloat_eq_iff hdecade.value hdecade.pos
  have hlast : onGrid? x num den order 17 ≠ none := fun hnone => by
    obtain ⟨hnotBelow, hnotAbove⟩ := onGrid?_eq_none hdecade (by norm_num) hnone
    exact (rounds_seventeen hdecade.value hdecade.pos hdecade.low).elim hnotBelow hnotAbove
  obtain ⟨digits, hdigits, hle, hfound, hearlier⟩ :=
    exists_findSome?_range' (by norm_num) hlast other
  generalize ((List.range' 1 17).findSome? (onGrid? x num den order)).getD other = d at hfound ⊢
  obtain ⟨hcount, hreads, hnearest⟩ := onGrid?_eq_some hdecade hdigits hfound
  have hfewest : ∀ c : Decimal, Rounds c.value v → digits ≤ digitCount c.significand := by
    intro c hc
    by_contra hless
    have hcpos := digitCount_pos c.significand
    obtain ⟨hnotBelow, hnotAbove⟩ :=
      onGrid?_eq_none hdecade hcpos (hearlier _ hcpos (not_le.1 hless))
    rcases rounds_neighbour hdecade hcpos le_rfl hc with ⟨hbelow, -⟩ | ⟨habove, -⟩
    · exact hnotBelow hbelow
    · exact hnotAbove habove
  refine ⟨(hreads_iff d).2 hreads, hcount.trans hle, fun c hc => ?_, ?_⟩
  · exact hcount.trans (hfewest c ((hreads_iff c).1 hc))
  · intro w hw c hc hsame
    cases hw.symm.trans hdecade.value
    exact hnearest c (hsame.trans_le hcount) ((hreads_iff c).1 hc)

/-- The decimal that is found for a positive number is a shortest one. -/
theorem isShortest_shortest {x : Float} {b : Binary}
    (hx : rational? x = some ((b.mantissa : ℚ) * 2 ^ b.exponent)) (hm : 0 < b.mantissa) :
    IsShortest x (shortest x b) :=
  (inDecade_decimalOrder hx hm).isShortest b.toDecimal

end Betty.Number
