import Betty.Proofs.Number.Rounding

/-!
# Adding one

A number plus one is larger than the number as long as the last place of the sum is not above
the units. Above it, the exact sum is halfway between two numbers or nearer to the old one: the
number stays the same, unless it is twice an odd number, from which a tie leads to the next one.

## Main definitions

* `TwiceOdd`: the numbers from which a tie leads upwards.
* `Advances`: the numbers that adding one makes larger.

## Main results

* `rational?_add_one_of_small`, `rational?_add_one_of_large`: the value of a number plus one.
* `lt_add_one_iff`: which numbers adding one makes larger.
-/

namespace Betty.Number

/-- Twice an odd integer. -/
def TwiceOdd (q : ℚ) : Prop :=
  ∃ k : ℤ, Odd k ∧ q = 2 * k

/-- The numbers that adding one makes larger. -/
def Advances (q : ℚ) : Prop :=
  (-2 ^ 53 ≤ q ∧ q < 2 ^ 53) ∨ TwiceOdd q

theorem small_or_large (v : ℚ) :
    (-2 ^ 53 ≤ v ∧ v < 2 ^ 53) ∨ v < -2 ^ 53 ∨ 2 ^ 53 ≤ v := by
  by_cases hsmall : -2 ^ 53 ≤ v ∧ v < 2 ^ 53
  · exact .inl hsmall
  · rw [not_and_or, not_le, not_lt] at hsmall
    exact .inr hsmall

theorem advances_iff_of_large {v : ℚ} (hlarge : v < -2 ^ 53 ∨ 2 ^ 53 ≤ v) :
    Advances v ↔ TwiceOdd v := by
  refine or_iff_right ?_
  rintro ⟨hlow, hhigh⟩
  rcases hlarge with hneg | hpos <;> linarith

/-! ### The last place around the units -/

theorem lastPlace_abs (q : ℚ) : lastPlace |q| = lastPlace q := by
  unfold lastPlace
  rw [abs_abs]

theorem lastPlace_le {q : ℚ} {place : ℤ} (hge : 0 ≤ place) (hlt : |q| < 2 ^ (53 + place)) :
    lastPlace q ≤ place := by
  unfold lastPlace
  refine max_le ?_ (by omega)
  by_cases hzero : |q| = 0
  · rw [hzero, Int.log_zero_right]
    omega
  · have hpos : 0 < |q| := lt_of_le_of_ne (abs_nonneg q) (Ne.symm hzero)
    have hlog : Int.log 2 |q| < 53 + place :=
      (Int.lt_zpow_iff_log_lt (by norm_num) hpos).1 (by exact_mod_cast hlt)
    omega

theorem le_lastPlace {q : ℚ} {place : ℤ} (hle : 2 ^ (52 + place) ≤ |q|) :
    place ≤ lastPlace q := by
  have hpos : 0 < |q| := lt_of_lt_of_le (by positivity) hle
  have hlog : 52 + place ≤ Int.log 2 |q| :=
    (Int.zpow_le_iff_le_log (by norm_num) hpos).1 (by exact_mod_cast hle)
  unfold lastPlace
  omega

/-- A multiple of a place is a multiple of every lower place. -/
theorem exists_multiple_of_le (n : ℤ) {low high : ℤ} (hle : low ≤ high) :
    ∃ k : ℤ, (n : ℚ) * 2 ^ high = k * 2 ^ low := by
  obtain ⟨shift, hshift⟩ := Int.eq_ofNat_of_zero_le (sub_nonneg.2 hle)
  have hhigh : high = shift + low := by omega
  refine ⟨n * 2 ^ shift, ?_⟩
  rw [hhigh, zpow_add₀ (by norm_num), zpow_natCast]
  push_cast
  ring

/-- Rounding does not go beyond a multiple of the last place. -/
theorem Rounds.le_of_multiple {q r : ℚ} (h : Rounds q r) {k : ℤ} (hle : q ≤ k * 2 ^ lastPlace q) :
    r ≤ k * 2 ^ lastPlace q := by
  obtain ⟨n, rfl, hnear, -⟩ := h
  have hscale : (0 : ℚ) < 2 ^ lastPlace q := by positivity
  rw [abs_le] at hnear
  have hclose : (n : ℚ) * 2 ^ lastPlace q < (k + 1) * 2 ^ lastPlace q := by linarith
  have hless : (n : ℚ) < k + 1 := lt_of_mul_lt_mul_right hclose hscale.le
  have hn : n < k + 1 := by exact_mod_cast hless
  have hcast : (n : ℚ) ≤ k := by exact_mod_cast Int.lt_add_one_iff.1 hn
  gcongr

/-! ### Rounding a number plus one -/

/-- Just below the numbers whose neighbours are two away, one leads to the first of them. -/
theorem Rounds.add_one_of_boundary {v r : ℚ} (h : Rounds (v + 1) r) (hlow : 2 ^ 53 ≤ v + 1)
    (hhigh : v < 2 ^ 53) : r = 2 ^ 53 := by
  have habs : |v + 1| = v + 1 := abs_of_nonneg (by linarith)
  have hplace : lastPlace (v + 1) = 1 := by
    apply le_antisymm
    · apply lastPlace_le (by norm_num)
      rw [habs]
      norm_num
      linarith
    · apply le_lastPlace
      rw [habs]
      norm_num
      linarith
  obtain ⟨n, hr, hnear, -⟩ := h
  rw [hplace, zpow_one] at hr hnear
  rw [hr, abs_le] at hnear
  have hless : (n : ℚ) < (2 ^ 52 + 1 : ℤ) := by push_cast; linarith
  have hmore : ((2 ^ 52 - 1 : ℤ) : ℚ) < n := by push_cast; linarith
  have hn : n = 2 ^ 52 := by
    have hless' : n < 2 ^ 52 + 1 := by exact_mod_cast hless
    have hmore' : 2 ^ 52 - 1 < n := by exact_mod_cast hmore
    omega
  rw [hr, hn]
  norm_num

/-- Around the units, rounding takes less than one away, and it does not go too far. -/
theorem Rounds.add_one_of_small {v r : ℚ} (h : Rounds (v + 1) r) (hlow : -2 ^ 53 ≤ v)
    (hhigh : v < 2 ^ 53) :
    r ≤ 2 ^ 53 ∧ (v + 1 / 2 ≤ r ∨ r = 2 ^ 53) ∧ ∀ n : ℤ, v = n → r = v + 1 := by
  by_cases hlarge : 2 ^ 53 ≤ v + 1
  · have hr := h.add_one_of_boundary hlarge hhigh
    refine ⟨hr.le, .inr hr, ?_⟩
    rintro n rfl
    have hn : n = 2 ^ 53 - 1 := by
      have hlarge' : 2 ^ 53 ≤ n + 1 := by exact_mod_cast hlarge
      have hhigh' : n < 2 ^ 53 := by exact_mod_cast hhigh
      omega
    rw [hr, hn]
    norm_num
  · have hplace : lastPlace (v + 1) ≤ 0 := by
      apply lastPlace_le le_rfl
      rw [abs_lt]
      constructor <;> norm_num <;> linarith
    have hscale : (2 : ℚ) ^ lastPlace (v + 1) ≤ 1 := zpow_le_one_of_nonpos₀ (by norm_num) hplace
    have hinteger : ∀ n : ℤ, ∃ k : ℤ, (n : ℚ) = k * 2 ^ lastPlace (v + 1) := by
      intro n
      obtain ⟨k, hk⟩ := exists_multiple_of_le n hplace
      exact ⟨k, by rwa [zpow_zero, mul_one] at hk⟩
    refine ⟨?_, .inl ?_, ?_⟩
    · obtain ⟨k, hk⟩ := hinteger (2 ^ 53)
      rw [Int.cast_pow, Int.cast_ofNat] at hk
      rw [hk]
      apply h.le_of_multiple
      rw [← hk]
      linarith
    · obtain ⟨n, -, hnear, -⟩ := h
      rw [abs_le] at hnear
      linarith
    · rintro n rfl
      obtain ⟨k, hk⟩ := hinteger (n + 1)
      rw [Int.cast_add, Int.cast_one] at hk
      exact h.eq_of_multiple hk

/-- If the last place is that of the twos, the sum is in the middle between two numbers. -/
theorem Rounds.add_one_of_twos {r : ℚ} {k : ℤ} (h : Rounds ((k : ℚ) * 2 + 1) r)
    (hplace : lastPlace ((k : ℚ) * 2 + 1) = 1) :
    (Odd k → r = k * 2 + 2) ∧ (Even k → r = k * 2) := by
  obtain ⟨n, rfl, hnear, htie⟩ := h
  rw [hplace, zpow_one] at hnear htie ⊢
  have hdifference : (k : ℚ) * 2 + 1 - n * 2 = ((2 * (k - n) + 1 : ℤ) : ℚ) := by
    push_cast
    ring
  rw [hdifference, div_self two_ne_zero] at hnear htie
  have hbounds : |2 * (k - n) + 1| ≤ 1 := by exact_mod_cast hnear
  rw [abs_le] at hbounds
  have heven : Even n := by
    apply htie
    rw [← Int.cast_abs]
    exact_mod_cast (show |2 * (k - n) + 1| = 1 by rw [abs_eq one_pos.le]; omega)
  rw [Int.even_iff] at heven
  constructor
  · intro hodd
    rw [Int.odd_iff] at hodd
    have hn : n = k + 1 := by omega
    rw [hn]
    push_cast
    ring
  · intro hk
    rw [Int.even_iff] at hk
    have hn : n = k := by omega
    rw [hn]

/-- If the last place is above the twos, the number is the nearest one. -/
theorem Rounds.add_one_of_above {v r : ℚ} (h : Rounds (v + 1) r) {k : ℤ}
    (hk : v = k * 2 ^ lastPlace (v + 1)) (hplace : 2 ≤ lastPlace (v + 1)) : r = v := by
  obtain ⟨n, hr, hnear, -⟩ := h
  generalize lastPlace (v + 1) = place at *
  have hscale : (4 : ℚ) ≤ 2 ^ place := by
    calc (4 : ℚ) = 2 ^ (2 : ℤ) := by norm_num
      _ ≤ 2 ^ place := zpow_le_zpow_right₀ (by norm_num) hplace
  rw [hr, hk, abs_le] at hnear
  have hless : ((k - n : ℤ) : ℚ) * 2 ^ place < 1 * 2 ^ place := by push_cast; linarith
  have hmore : ((-1 : ℤ) : ℚ) * 2 ^ place < (k - n : ℤ) * 2 ^ place := by push_cast; linarith
  have hpos : (0 : ℚ) ≤ 2 ^ place := by positivity
  have hless' : k - n < 1 := by exact_mod_cast lt_of_mul_lt_mul_right hless hpos
  have hmore' : -1 < k - n := by exact_mod_cast lt_of_mul_lt_mul_right hmore hpos
  have hn : n = k := by omega
  rw [hr, hk, hn]

theorem TwiceOdd.iff_odd {k : ℤ} : TwiceOdd ((k : ℚ) * 2) ↔ Odd k := by
  constructor
  · rintro ⟨j, hodd, hj⟩
    have hjk : k * 2 = 2 * j := by exact_mod_cast hj
    have heq : k = j := by omega
    rwa [heq]
  · intro hodd
    exact ⟨k, hodd, mul_comm _ _⟩

theorem TwiceOdd.not_add_two {v : ℚ} (h : TwiceOdd v) : ¬ TwiceOdd (v + 2) := by
  obtain ⟨k, hodd, rfl⟩ := h
  have hnext : 2 * (k : ℚ) + 2 = ((k + 1 : ℤ) : ℚ) * 2 := by push_cast; ring
  rw [hnext, TwiceOdd.iff_odd, Int.not_odd_iff_even]
  exact hodd.add_one

/-- The last place of a number plus one, far from the units. -/
theorem lastPlace_add_one_of_large {v : ℚ} {k : ℤ} (hk : v = k * 2 ^ lastPlace v)
    (hlarge : v < -2 ^ 53 ∨ 2 ^ 53 ≤ v) :
    1 ≤ lastPlace (v + 1) ∧ lastPlace (v + 1) ≤ lastPlace v := by
  have habs : 2 ^ 53 ≤ |v| := by
    rw [le_abs]
    rcases hlarge with hneg | hpos
    · exact .inr (by linarith)
    · exact .inl hpos
  have hplace : 1 ≤ lastPlace v := le_lastPlace (by norm_num at habs ⊢; exact habs)
  constructor
  · apply le_lastPlace
    norm_num
    rw [le_abs]
    rcases hlarge with hneg | hpos
    · -- an even number below the bound is so by two
      right
      obtain ⟨j, hj⟩ := exists_multiple_of_le k hplace
      rw [← hk, zpow_one] at hj
      have hless : (j : ℚ) < (-2 ^ 52 : ℤ) := by push_cast; linarith
      have hj' : j ≤ -2 ^ 52 - 1 := by
        have : j < -2 ^ 52 := by exact_mod_cast hless
        omega
      have hcast : (j : ℚ) ≤ ((-2 ^ 52 - 1 : ℤ) : ℚ) := by exact_mod_cast hj'
      push_cast at hcast
      linarith
    · left
      linarith
  · apply lastPlace_le (by omega)
    have hscale : (0 : ℚ) < 2 ^ lastPlace v := by positivity
    have htwo : (2 : ℚ) ≤ 2 ^ lastPlace v := by
      calc (2 : ℚ) = 2 ^ (1 : ℤ) := by norm_num
        _ ≤ 2 ^ lastPlace v := zpow_le_zpow_right₀ (by norm_num) hplace
    -- The mantissa is an integer, so it stays away from the next power of two by one.
    have hvalue : |v| = (|k| : ℤ) * 2 ^ lastPlace v := by
      nth_rewrite 1 [hk]
      rw [abs_mul, abs_of_pos hscale, Int.cast_abs]
    have hmantissa : |k| + 1 ≤ 2 ^ 53 := by
      have hbelow := (lastPlace_bounds (lt_of_lt_of_le (by norm_num) habs)).1
      rw [lastPlace_abs, hvalue, mul_div_cancel_right₀ _ hscale.ne'] at hbelow
      have : |k| < 2 ^ 53 := by exact_mod_cast hbelow
      omega
    have hcast : ((|k| : ℤ) : ℚ) + 1 ≤ 2 ^ 53 := by exact_mod_cast hmantissa
    calc |v + 1| ≤ |v| + 1 := (abs_add_le v 1).trans (by rw [abs_one])
      _ < |v| + 2 ^ lastPlace v := by linarith
      _ = (((|k| : ℤ) : ℚ) + 1) * 2 ^ lastPlace v := by rw [hvalue]; ring
      _ ≤ 2 ^ 53 * 2 ^ lastPlace v := by gcongr
      _ = 2 ^ (53 + lastPlace v) := by rw [zpow_add₀ (by norm_num)]; norm_num

/-- Far from the units, one is rounded away, or a tie leads to the next number. -/
theorem Rounds.add_one_of_large {v r : ℚ} (h : Rounds (v + 1) r) {k : ℤ}
    (hk : v = k * 2 ^ lastPlace v) (hlarge : v < -2 ^ 53 ∨ 2 ^ 53 ≤ v) :
    (TwiceOdd v → r = v + 2 ∧ |v + 1| < 2 ^ 54) ∧ (¬ TwiceOdd v → r = v) := by
  obtain ⟨hlow, hhigh⟩ := lastPlace_add_one_of_large hk hlarge
  obtain ⟨j, hj⟩ := exists_multiple_of_le k hhigh
  rw [← hk] at hj
  rcases hlow.eq_or_lt with hone | habove
  · rw [← hone, zpow_one] at hj
    subst hj
    obtain ⟨hodd, heven⟩ := h.add_one_of_twos hone.symm
    have hbound : |(j : ℚ) * 2 + 1| < 2 ^ 54 := by
      have hpos : 0 < |(j : ℚ) * 2 + 1| := abs_pos.2 (by
        intro hzero
        have : j * 2 + 1 = 0 := by exact_mod_cast hzero
        omega)
      have hbelow := (lastPlace_bounds hpos).1
      rw [lastPlace_abs, ← hone, zpow_one] at hbelow
      linarith
    rw [TwiceOdd.iff_odd, Int.not_odd_iff_even]
    exact ⟨fun hj => ⟨hodd hj, hbound⟩, heven⟩
  · have hr := h.add_one_of_above hj habove
    refine ⟨fun hodd => absurd hodd ?_, fun _ => hr⟩
    -- A multiple of four is not twice an odd number.
    obtain ⟨i, hi⟩ := exists_multiple_of_le j (show 2 ≤ lastPlace (v + 1) from habove)
    have hfour : v = ((2 * i : ℤ) : ℚ) * 2 := by
      rw [hj, hi]
      push_cast
      ring
    rw [hfour, TwiceOdd.iff_odd, Int.not_odd_iff_even]
    exact even_two_mul i

/-! ### Adding one to a number -/

theorem rational?_one : rational? 1 = some 1 := by
  have hparts : parts? (1 : Float).toModel.unpack = some ⟨false, 2 ^ 52, -52⟩ := by decide +kernel
  unfold rational?
  rw [hparts]
  norm_num [Binary.value]

theorem two_pow_lt_overflow : (2 : ℚ) ^ 55 < 2 ^ 1024 :=
  pow_lt_pow_right₀ (by norm_num) (by norm_num)

/-- Adding one around the units: the sum is larger, by at least a half or up to the numbers
whose neighbours are two away, and it is exact for integers. -/
theorem rational?_add_one_of_small {x : Float} {v : ℚ} (hx : rational? x = some v)
    (hlow : -2 ^ 53 ≤ v) (hhigh : v < 2 ^ 53) :
    ∃ r, rational? (x + 1) = some r ∧ v < r ∧ r ≤ 2 ^ 53 ∧ (v + 1 / 2 ≤ r ∨ r = 2 ^ 53) ∧
      ∀ n : ℤ, v = n → r = v + 1 := by
  obtain ⟨r, hrounds, hfinite⟩ := exists_rounds_add hx rational?_one
  obtain ⟨hle, hfar, hexact⟩ := hrounds.add_one_of_small hlow hhigh
  have hlt : v < r := by
    rcases hfar with hhalf | hlast
    · linarith
    · rwa [hlast]
  refine ⟨r, hfinite ?_, hlt, hle, hfar, hexact⟩
  refine lt_trans ?_ two_pow_lt_overflow
  rw [abs_lt]
  constructor <;> linarith

/-- Adding one far from the units: nothing changes, or a tie leads to the next number. -/
theorem rational?_add_one_of_large {x : Float} {v : ℚ} (hx : rational? x = some v)
    (hlarge : v < -2 ^ 53 ∨ 2 ^ 53 ≤ v) :
    (TwiceOdd v → rational? (x + 1) = some (v + 2)) ∧
      (¬ TwiceOdd v → rational? (x + 1) = some v) := by
  obtain ⟨r, hrounds, hfinite⟩ := exists_rounds_add hx rational?_one
  obtain ⟨hdenotes, hbound⟩ := denotes_unpack hx
  obtain ⟨k, hk⟩ := hdenotes.exists_multiple
  obtain ⟨hodd, heven⟩ := hrounds.add_one_of_large hk hlarge
  constructor
  · intro htwice
    obtain ⟨rfl, hsmall⟩ := hodd htwice
    apply hfinite
    refine lt_trans ?_ two_pow_lt_overflow
    rw [abs_lt] at hsmall ⊢
    constructor <;> linarith
  · intro htwice
    have hr := heven htwice
    subst hr
    exact hfinite hbound

/-- Adding one makes a number larger around the units, and where a tie leads upwards; nowhere
else. -/
theorem lt_add_one_iff {x : Float} {v : ℚ} (hx : rational? x = some v) :
    x < x + 1 ↔ Advances v := by
  rcases small_or_large v with hsmall | hlarge
  · obtain ⟨r, hr, hlt, -⟩ := rational?_add_one_of_small hx hsmall.1 hsmall.2
    rw [lt_iff_of_rational? hx hr]
    exact ⟨fun _ => .inl hsmall, fun _ => hlt⟩
  · obtain ⟨hodd, heven⟩ := rational?_add_one_of_large hx hlarge
    rw [advances_iff_of_large hlarge]
    by_cases htwice : TwiceOdd v
    · rw [lt_iff_of_rational? hx (hodd htwice)]
      exact ⟨fun _ => htwice, fun _ => by linarith⟩
    · rw [lt_iff_of_rational? hx (heven htwice)]
      exact ⟨fun h => absurd h (lt_irrefl v), fun h => absurd h htwice⟩

theorem not_advances_bound : ¬ Advances (2 ^ 53) := by
  rw [advances_iff_of_large (.inr le_rfl)]
  rintro ⟨k, hodd, hk⟩
  have hk' : 2 ^ 53 = 2 * k := by exact_mod_cast hk
  rw [Int.odd_iff] at hodd
  omega

/-- Where the units are not kept, all numbers are even. -/
theorem exists_eq_two_mul {x : Float} {v : ℚ} (hx : rational? x = some v)
    (hlarge : v < -2 ^ 53 ∨ 2 ^ 53 ≤ v) : ∃ k : ℤ, v = k * 2 := by
  obtain ⟨k, hk⟩ := (denotes_unpack hx).1.exists_multiple
  obtain ⟨hlow, hhigh⟩ := lastPlace_add_one_of_large hk hlarge
  obtain ⟨j, hj⟩ := exists_multiple_of_le k (hlow.trans hhigh)
  rw [← hk, zpow_one] at hj
  exact ⟨j, hj⟩

/-- A step from a number does not lead out of the numbers, and not down. -/
theorem exists_rational?_add_one (hx : rational? x = some v) :
    ∃ r, rational? (x + 1) = some r ∧ v ≤ r := by
  rcases small_or_large v with hsmall | hlarge
  · obtain ⟨r, hr, hlt, -⟩ := rational?_add_one_of_small hx hsmall.1 hsmall.2
    exact ⟨r, hr, hlt.le⟩
  · obtain ⟨hodd, heven⟩ := rational?_add_one_of_large hx hlarge
    by_cases htwice : TwiceOdd v
    · exact ⟨v + 2, hodd htwice, by linarith⟩
    · exact ⟨v, heven htwice, le_rfl⟩

end Betty.Number
