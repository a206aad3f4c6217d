import Betty.Proofs.Number.Exact

/-!
# Canonical forms and the order of numbers

A number has many forms as a mantissa and an exponent. The format keeps one of them: the
mantissa has all its bits, unless the exponent is the least there is. So unpacking undoes
packing, and two numbers can be compared by their exponents first.

## Main definitions

* `Canonical`: the form that the format keeps.
* `Denotes`: the canonical forms of a rational number.

## Main results

* `Denotes.value?_pack`: packing keeps a value that is not too large.
* `lt_iff_of_rational?`: numbers are ordered as their exact values.
-/

namespace Betty.Number

open Float.Model

/-- The mantissa fits into the format, and it has all its bits unless the exponent is the
least there is. -/
structure Canonical (mantissa : ℕ) (exponent : ℤ) : Prop where
  lt : mantissa < 2 ^ 53
  ge : -1074 ≤ exponent
  full : 2 ^ 52 ≤ mantissa ∨ exponent = -1074

/-- The canonical forms of a rational number. -/
inductive Denotes : UnpackedFloat → ℚ → Prop
  | zero (sign : UnpackedFloat.Sign) : Denotes (.zero sign) 0
  | finite {sign : UnpackedFloat.Sign} {mantissa : ℕ} {exponent : ℤ} (hpos : 0 < mantissa)
      (h : Canonical mantissa exponent) :
      Denotes (.finite sign mantissa exponent hpos)
        (Binary.value ⟨isNegative sign, mantissa, exponent⟩)

/-- The rational number that an unpacked form denotes. -/
def value? (form : UnpackedFloat) : Option ℚ :=
  (parts? form).map Binary.value

theorem Denotes.value? {form : UnpackedFloat} {q : ℚ} (h : Denotes form q) :
    value? form = some q := by
  cases h with
  | zero sign => simp [Number.value?, parts?, Binary.value]
  | finite hpos _ => rfl

theorem abs_value (b : Binary) : |b.value| = b.mantissa * 2 ^ b.exponent := by
  have hnonneg : (0 : ℚ) ≤ b.mantissa * 2 ^ b.exponent := by positivity
  unfold Binary.value
  rw [mul_assoc]
  cases b.negative with
  | true => simp [abs_of_nonneg hnonneg]
  | false => simp [abs_of_nonneg hnonneg]

theorem value_positive (mantissa : ℕ) (exponent : ℤ) :
    Binary.value ⟨isNegative .positive, mantissa, exponent⟩ = mantissa * 2 ^ exponent := by
  simp [Binary.value, isNegative]

theorem value_negative (mantissa : ℕ) (exponent : ℤ) :
    Binary.value ⟨isNegative .negative, mantissa, exponent⟩ = -(mantissa * 2 ^ exponent) := by
  simp [Binary.value, isNegative]

/-! ### Packing and unpacking -/

/-- What is unpacked is canonical, and its exponent is not too large. -/
theorem canonical_unpack {bits : BitVec 64} {sign : UnpackedFloat.Sign} {mantissa : ℕ}
    {exponent : ℤ} {hpos : 0 < mantissa}
    (h : UnpackedFloat.unpack Format.binary64 bits = .finite sign mantissa exponent hpos) :
    Canonical mantissa exponent ∧ exponent ≤ 971 := by
  have hbias : Format.binary64.exponentBias = 1023 := by decide
  revert h
  fun_cases UnpackedFloat.unpack Format.binary64 bits with
  | case1 => intro h; cases h
  | case2 => intro h; cases h
  | case3 => intro h; cases h
  | case4 stored biased scale _ _ hfinite hsmall hnonzero =>
    -- a number below the normal ones
    intro h
    injection h with _ hmantissa hexponent
    rw [← hmantissa, ← hexponent]
    have hbits : stored.toNat < 2 ^ 52 := stored.isLt
    have hscale : scale + 1 = -1074 := by
      change (biased.toNat : ℤ) - (Format.binary64.exponentBias + 52) + 1 = -1074
      rw [hsmall, hbias]
      rfl
    rw [hscale]
    exact ⟨⟨by omega, le_refl _, .inr rfl⟩, by omega⟩
  | case5 stored biased scale _ _ hfinite hnormal =>
    intro h
    injection h with _ hmantissa hexponent
    rw [← hmantissa, ← hexponent]
    have hbits : stored.toNat < 2 ^ 52 := stored.isLt
    have hvalue : (1#1 ++ stored).toNat = 2 ^ 52 + stored.toNat := toNat_one_append stored
    have hscale : scale = biased.toNat - 1075 := by
      change (biased.toNat : ℤ) - (Format.binary64.exponentBias + 52) = _
      rw [hbias]
      rfl
    have hlast : biased.toNat ≠ 2047 := BitVec.toNat_ne.1 hfinite
    have hfirst : biased.toNat ≠ 0 := BitVec.toNat_ne.1 hnormal
    have hbound : biased.toNat < 2 ^ 11 := biased.isLt
    rw [hvalue, hscale]
    exact ⟨⟨by omega, by omega, .inl (by omega)⟩, by omega⟩

/-- The bits of a full mantissa are those that are stored, after the leading one. -/
theorem toNat_one_append_ofNat {mantissa : ℕ} (hfull : 2 ^ 52 ≤ mantissa)
    (hlt : mantissa < 2 ^ 53) : (1#1 ++ BitVec.ofNat 52 mantissa).toNat = mantissa := by
  rw [toNat_one_append, BitVec.toNat_ofNat]
  omega

/-- A canonical form is unpacked from what it is packed into. -/
theorem unpack_pack {sign : UnpackedFloat.Sign} {mantissa : ℕ} {exponent : ℤ}
    (hpos : 0 < mantissa) (h : Canonical mantissa exponent) (hexponent : exponent ≤ 971) :
    UnpackedFloat.unpack Format.binary64
      (UnpackedFloat.pack Format.binary64 (.finite sign mantissa exponent hpos)) =
        .finite sign mantissa exponent hpos := by
  obtain ⟨hlt, hge, hfull⟩ := h
  have hbias : Format.binary64.exponentBias = 1023 := by decide
  have hbits : Format.binary64.mantissaBits = 53 := by decide
  unfold UnpackedFloat.pack
  dsimp only
  rw [hbias, hbits]
  generalize hbiased : (exponent + (1023 : ℕ) + (52 : ℕ)).toNat = biased
  have hbound : biased < 2 ^ 11 - 1 := by omega
  rw [if_neg (show ¬ 2 ^ 11 ≤ biased + 1 by omega)]
  have htoNat : (BitVec.ofNat 11 biased).toNat = biased := by
    rw [BitVec.toNat_ofNat, Nat.mod_eq_of_lt (by omega)]
  by_cases hnormal : 2 ^ 52 ≤ mantissa
  · have hlog : mantissa.log2 = 52 := (Nat.log2_eq_iff hpos.ne').2 ⟨hnormal, hlt⟩
    rw [if_pos (by rw [hlog])]
    have hlast : BitVec.ofNat 11 biased ≠ -1#11 := by
      rw [BitVec.toNat_ne, htoNat]
      exact ne_of_lt hbound
    have hfirst : BitVec.ofNat 11 biased ≠ 0#11 := by
      rw [BitVec.toNat_ne, htoNat, BitVec.toNat_zero]
      omega
    unfold UnpackedFloat.unpack
    simp only [UnpackedFloat.unpackMantissa_packComponents,
      UnpackedFloat.unpackExponent_packComponents, UnpackedFloat.unpackSign_packComponents,
      UnpackedFloat.Sign.ofBitVec_toBitVec, if_neg hlast, if_neg hfirst, htoNat, hbias,
      toNat_one_append_ofNat hnormal hlt]
    congr 1
    omega
  · have hleast : exponent = -1074 := hfull.resolve_left hnormal
    have hlog : mantissa.log2 < 52 := (Nat.log2_lt hpos.ne').2 (by omega)
    rw [if_neg (by omega)]
    have hstored : (BitVec.ofNat 52 mantissa).toNat = mantissa := by
      rw [BitVec.toNat_ofNat, Nat.mod_eq_of_lt (by omega)]
    have hnonzero : BitVec.ofNat 52 mantissa ≠ 0#52 := by
      rw [BitVec.toNat_ne, hstored, BitVec.toNat_zero]
      exact hpos.ne'
    unfold UnpackedFloat.unpack
    simp only [UnpackedFloat.unpackMantissa_packComponents,
      UnpackedFloat.unpackExponent_packComponents, UnpackedFloat.unpackSign_packComponents,
      UnpackedFloat.Sign.ofBitVec_toBitVec, hstored, hbias, dif_neg hnonzero]
    rw [if_neg (by decide), if_pos trivial]
    congr 1
    rw [hleast]
    rfl

/-- A canonical form of a number that is not too large has not too large an exponent. -/
theorem Canonical.exponent_le {mantissa : ℕ} {exponent : ℤ} (h : Canonical mantissa exponent)
    (hlt : (mantissa : ℚ) * 2 ^ exponent < 2 ^ 1024) : exponent ≤ 971 := by
  by_contra hlarge
  have hfull : 2 ^ 52 ≤ mantissa := h.full.resolve_right (by omega)
  have hmantissa : (2 : ℚ) ^ (52 : ℤ) ≤ mantissa := by exact_mod_cast hfull
  have hscale : (2 : ℚ) ^ (972 : ℤ) ≤ 2 ^ exponent :=
    zpow_le_zpow_right₀ (by norm_num) (by omega)
  have hproduct : (2 : ℚ) ^ (52 : ℤ) * 2 ^ (972 : ℤ) ≤ mantissa * 2 ^ exponent := by
    gcongr
  rw [← zpow_add₀ (by norm_num)] at hproduct
  exact absurd (hproduct.trans_lt hlt) (by norm_num)

/-- Packing keeps a value that is not too large. -/
theorem Denotes.value?_pack {form : UnpackedFloat} {q : ℚ} (h : Denotes form q)
    (hlt : |q| < 2 ^ 1024) :
    Number.value? (UnpackedFloat.unpack Format.binary64
      (UnpackedFloat.pack Format.binary64 form)) = some q := by
  cases h with
  | zero sign =>
    unfold UnpackedFloat.pack
    rw [UnpackedFloat.unpack_packedZero]
    exact (Denotes.zero sign).value?
  | finite hpos hcanonical =>
    rw [abs_value] at hlt
    rw [unpack_pack hpos hcanonical (hcanonical.exponent_le hlt)]
    exact (Denotes.finite hpos hcanonical).value?

/-- A number is unpacked into a canonical form of its value, which is not too large. -/
theorem denotes_unpack {x : Float} {q : ℚ} (h : rational? x = some q) :
    Denotes x.toModel.unpack q ∧ |q| < 2 ^ 1024 := by
  change value? x.toModel.unpack = some q at h
  cases hform : x.toModel.unpack with
  | notANumber => rw [hform] at h; cases h
  | infinity sign => rw [hform] at h; cases h
  | zero sign =>
    rw [hform, (Denotes.zero sign).value?] at h
    cases h
    exact ⟨.zero sign, by norm_num⟩
  | finite sign mantissa exponent hpos =>
    obtain ⟨hcanonical, hexponent⟩ := canonical_unpack hform
    rw [hform, (Denotes.finite hpos hcanonical).value?] at h
    cases h
    refine ⟨.finite hpos hcanonical, ?_⟩
    rw [abs_value]
    have hmantissa : (mantissa : ℚ) < 2 ^ (53 : ℤ) := by exact_mod_cast hcanonical.lt
    have hscale : (2 : ℚ) ^ exponent ≤ 2 ^ (971 : ℤ) :=
      zpow_le_zpow_right₀ (by norm_num) hexponent
    calc (mantissa : ℚ) * 2 ^ exponent < 2 ^ (53 : ℤ) * 2 ^ exponent := by gcongr
      _ ≤ 2 ^ (53 : ℤ) * 2 ^ (971 : ℤ) := by gcongr
      _ = 2 ^ 1024 := by rw [← zpow_add₀ (by norm_num)]; norm_num

/-! ### Order -/

/-- A smaller exponent makes a canonical form smaller, whatever the mantissas are. -/
theorem Canonical.lt_of_exponent_lt {m n : ℕ} {d e : ℤ} (hm : Canonical m d)
    (hn : Canonical n e) (h : d < e) : (m : ℚ) * 2 ^ d < n * 2 ^ e := by
  have hbits : (m : ℚ) < 2 ^ (53 : ℤ) := by exact_mod_cast hm.lt
  have hfull : 2 ^ 52 ≤ n := hn.full.resolve_right (by have := hm.ge; omega)
  have hleast : (2 : ℚ) ^ (52 : ℤ) ≤ n := by exact_mod_cast hfull
  calc (m : ℚ) * 2 ^ d < 2 ^ (53 : ℤ) * 2 ^ d := by gcongr
    _ = 2 ^ (52 : ℤ) * 2 ^ (d + 1) := by
      rw [← zpow_add₀ (by norm_num), ← zpow_add₀ (by norm_num)]
      ring_nf
    _ ≤ 2 ^ (52 : ℤ) * 2 ^ e := by
      gcongr
      · norm_num
      · omega
    _ ≤ n * 2 ^ e := by gcongr

/-- Canonical forms are compared by exponents and then by mantissas. -/
theorem Canonical.compare_eq {m n : ℕ} {d e : ℤ} (hm : Canonical m d) (hn : Canonical n e) :
    (compare d e).then (compare m n) = compare ((m : ℚ) * 2 ^ d) (n * 2 ^ e) := by
  rcases lt_trichotomy d e with hlt | rfl | hgt
  · rw [compare_lt_iff_lt.2 hlt, compare_lt_iff_lt.2 (hm.lt_of_exponent_lt hn hlt)]
    rfl
  · have hscale : (0 : ℚ) < 2 ^ d := by positivity
    rw [compare_eq_iff_eq.2 rfl, Ordering.eq_then]
    rcases lt_trichotomy m n with hless | rfl | hmore
    · rw [compare_lt_iff_lt.2 hless, eq_comm, compare_lt_iff_lt]
      gcongr
    · rw [compare_eq_iff_eq.2 rfl, compare_eq_iff_eq.2 rfl]
    · rw [compare_gt_iff_gt.2 hmore, eq_comm, compare_gt_iff_gt]
      gcongr
  · rw [compare_gt_iff_gt.2 hgt, compare_gt_iff_gt.2 (hn.lt_of_exponent_lt hm hgt)]
    rfl

theorem compare_neg_neg (a b : ℚ) : compare (-a) (-b) = (compare a b).swap := by
  rcases lt_trichotomy a b with hlt | rfl | hgt
  · rw [compare_lt_iff_lt.2 hlt]
    exact compare_gt_iff_gt.2 (neg_lt_neg hlt)
  · rw [compare_eq_iff_eq.2 rfl, compare_eq_iff_eq.2 rfl]
    rfl
  · rw [compare_gt_iff_gt.2 hgt]
    exact compare_lt_iff_lt.2 (neg_lt_neg hgt)

/-- Canonical forms are ordered as the numbers that they denote. -/
theorem Denotes.compare {f g : UnpackedFloat} {a b : ℚ} (hf : Denotes f a) (hg : Denotes g b) :
    f.compare g = some (compare a b) := by
  cases hf with
  | zero s =>
    cases hg with
    | zero t => simp [UnpackedFloat.compare]
    | @finite t n e hn _ =>
      have hpos : (0 : ℚ) < n * 2 ^ e := by positivity
      cases t with
      | positive => exact congrArg some (compare_lt_iff_lt.2 (by rwa [value_positive])).symm
      | negative =>
        exact congrArg some (compare_gt_iff_gt.2 (by rw [value_negative]; linarith)).symm
  | @finite s m d hm hcanonical =>
    have hpos : (0 : ℚ) < m * 2 ^ d := by positivity
    cases hg with
    | zero t =>
      cases s with
      | positive => exact congrArg some (compare_gt_iff_gt.2 (by rwa [value_positive])).symm
      | negative =>
        exact congrArg some (compare_lt_iff_lt.2 (by rw [value_negative]; linarith)).symm
    | @finite t n e hn hcanonical' =>
      have hpos' : (0 : ℚ) < n * 2 ^ e := by positivity
      -- forms of one sign are compared by their parts, others by their signs
      cases s with
      | positive =>
        cases t with
        | positive =>
          rw [value_positive, value_positive, ← hcanonical.compare_eq hcanonical']
          rfl
        | negative =>
          exact congrArg some (compare_gt_iff_gt.2 (by
            rw [value_positive, value_negative]; linarith)).symm
      | negative =>
        cases t with
        | positive =>
          exact congrArg some (compare_lt_iff_lt.2 (by
            rw [value_positive, value_negative]; linarith)).symm
        | negative =>
          rw [value_negative, value_negative, compare_neg_neg, ← hcanonical.compare_eq hcanonical']
          rfl

/-- Numbers are ordered as their exact values. -/
theorem lt_iff_of_rational? {x y : Float} {a b : ℚ} (hx : rational? x = some a)
    (hy : rational? y = some b) : x < y ↔ a < b := by
  have hcompare := (denotes_unpack hx).1.compare (denotes_unpack hy).1
  have hlt : x < y ↔ x.toModel.unpack.compare y.toModel.unpack = some .lt :=
    decide_eq_true_iff.trans beq_iff_eq
  rw [hlt, hcompare, Option.some.injEq, compare_lt_iff_lt]

end Betty.Number
