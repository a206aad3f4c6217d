import Betty.Intrinsic.Apply
import Betty.Number.Text
import Betty.Proofs.Heap.Pool
import Betty.Proofs.Number.Shortest
import Betty.Proofs.Token.Written

/-!
# Writing and reading numbers

A number is written with the digits of a shortest decimal, positionally or with a power of ten.
Both notations are read as that decimal, up to zeros at its end, and so as the number itself.

## Main definitions

* `IsPositional`: the digits of a decimal, with zeros where places have to be filled.
* `IsScientific`: the digits of a decimal, one of them before the point, with a power of ten.

## Main results

* `IsPositional.ofChars?`, `IsScientific.ofChars?`: both notations are read as the decimal.
* `ofChars?_render`: the text of a number is read as the number.
* `number_text_round_trips`: how numbers are written, and that they are read back.
-/

namespace Betty.Number

/-! ### Numerals with a power of ten -/

theorem digitsValue_eq_ofDigitChars (digits : List Char) :
    digitsValue digits = Nat.ofDigitChars 10 digits 0 :=
  rfl

@[simp]
theorem digitsValue_toDigits (n : ℕ) : digitsValue (Nat.toDigits 10 n) = n :=
  Nat.ofDigitChars_ten_toDigits

theorem digitsValue_append (left right : List Char) :
    digitsValue (left ++ right) = 10 ^ right.length * digitsValue left + digitsValue right := by
  rw [digitsValue_eq_ofDigitChars, Nat.ofDigitChars_append, Nat.ofDigitChars_eq_ofDigitChars_zero]
  rfl

@[simp]
theorem digitsValue_zeros (n : ℕ) : digitsValue (zeros n) = 0 := by
  rw [digitsValue_eq_ofDigitChars, zeros, Nat.ofDigitChars_replicate_zero, Nat.mul_zero]

@[simp]
theorem length_zeros (n : ℕ) : (zeros n).length = n :=
  List.length_replicate

theorem isDigit_of_mem_zeros {n : ℕ} {c : Char} (h : c ∈ zeros n) : c.isDigit := by
  rw [List.eq_of_mem_replicate h]
  rfl

theorem isDigit_of_mem_toDigits {n : ℕ} {c : Char} (h : c ∈ Nat.toDigits 10 n) : c.isDigit :=
  Nat.isDigit_of_mem_toDigits (by norm_num) (by norm_num) h

namespace Decimal

section Power

variable {whole fraction power : List Char} {below : Prop} [Decidable below] (hwhole : whole ≠ [])
  (hpower : power ≠ []) (hwhole' : ∀ c ∈ whole, c.isDigit) (hpower' : ∀ c ∈ power, c.isDigit)

include hpower hpower' in
theorem scale?_power : scale? ('E' :: (if below then '-' else '+') :: power) =
    some (if below then -(digitsValue power : ℤ) else digitsValue power) := by
  have hall : power.all Char.isDigit = true := List.all_eq_true.2 hpower'
  by_cases h : below
  · simp [scale?, signedInteger?, h, hpower, hall]
  · simp [scale?, signedInteger?, h, hpower, hall]

include hwhole hpower hwhole' hpower'

/-- Digits, and then a power of ten, are a numeral. -/
theorem ofChars?_power :
    ofChars? (whole ++ 'E' :: (if below then '-' else '+') :: power) =
      some ⟨digitsValue whole, if below then -(digitsValue power : ℤ) else digitsValue power⟩ := by
  obtain ⟨htake, hdrop⟩ :=
    takeWhile_digits hwhole' ('E' :: (if below then '-' else '+') :: power) (by simp)
  simp [ofChars?, htake, hdrop, hwhole, scale?_power hpower hpower']

/-- Digits with a point among them, and then a power of ten, are a numeral. -/
theorem ofChars?_point_power (hfraction : ∀ c ∈ fraction, c.isDigit) :
    ofChars? (whole ++ '.' :: (fraction ++ 'E' :: (if below then '-' else '+') :: power)) =
      some ⟨digitsValue (whole ++ fraction),
        (if below then -(digitsValue power : ℤ) else digitsValue power) - fraction.length⟩ := by
  obtain ⟨htake, hdrop⟩ := takeWhile_digits hwhole'
    ('.' :: (fraction ++ 'E' :: (if below then '-' else '+') :: power)) (by simp)
  obtain ⟨htake', hdrop'⟩ :=
    takeWhile_digits hfraction ('E' :: (if below then '-' else '+') :: power) (by simp)
  simp [ofChars?, htake, hdrop, htake', hdrop', hwhole, scale?_power hpower hpower']

end Power

end Decimal

/-! ### Positional notation -/

/-- The exponent of the first digit of a decimal. -/
def Decimal.leading (d : Decimal) : ℤ :=
  d.exponent + digitCount d.significand - 1

/-- The digits of a decimal at their places. Zeros are written where places have to be filled,
and nowhere else: after the digits up to the units, or between the point and the digits with a
zero before the point. -/
inductive IsPositional (d : Decimal) : List Char → Prop
  | whole (h : 0 ≤ d.exponent) :
    IsPositional d (Nat.toDigits 10 d.significand ++ zeros d.exponent.toNat)
  | mixed {whole fraction : List Char} (hdigits : Nat.toDigits 10 d.significand = whole ++ fraction)
    (hwhole : whole ≠ []) (hfraction : fraction ≠ [])
    (hlength : (fraction.length : ℤ) = -d.exponent) : IsPositional d (whole ++ '.' :: fraction)
  | small (h : d.leading < 0) :
    IsPositional d ('0' :: '.' :: zeros (-d.leading - 1).toNat ++ Nat.toDigits 10 d.significand)

theorem Decimal.leading_eq (d : Decimal) :
    d.leading = d.exponent + (Nat.toDigits 10 d.significand).length - 1 := rfl

theorem isPositional_positionalText (d : Decimal) :
    IsPositional d (positionalText (Nat.toDigits 10 d.significand) d.leading) := by
  have hleading := d.leading_eq
  have hne : Nat.toDigits 10 d.significand ≠ [] := Nat.toDigits_ne_nil
  unfold positionalText
  dsimp only
  split_ifs with hnegative hshort
  · exact .small hnegative
  · have hzeros : d.leading.toNat + 1 - (Nat.toDigits 10 d.significand).length =
        d.exponent.toNat := by omega
    rw [hzeros]
    exact .whole (by omega)
  · refine .mixed (List.take_append_drop _ _).symm (by simp [hne]) (by simpa using hshort) ?_
    rw [List.length_drop]
    omega

/-- In positional notation a decimal is read as itself, with the zeros that are written after its
digits. -/
theorem IsPositional.ofChars? {d : Decimal} {text : List Char} (h : IsPositional d text) :
    Decimal.ofChars? text =
      some ⟨d.significand * 10 ^ d.exponent.toNat, d.exponent - d.exponent.toNat⟩ := by
  have hdigits : ∀ c ∈ Nat.toDigits 10 d.significand, c.isDigit := fun c => isDigit_of_mem_toDigits
  have hvalue := digitsValue_toDigits d.significand
  have hleading := d.leading_eq
  have hne : Nat.toDigits 10 d.significand ≠ [] := Nat.toDigits_ne_nil
  cases h with
  | whole h =>
    have hwhole : ∀ c ∈ Nat.toDigits 10 d.significand ++ zeros d.exponent.toNat, c.isDigit :=
      fun c hc => (List.mem_append.1 hc).elim (hdigits c) isDigit_of_mem_zeros
    refine (ofChars?_whole (by simp [hne]) hwhole).trans ?_
    rw [digitsValue_append, digitsValue_zeros, hvalue, length_zeros, add_zero, mul_comm]
    congr 2
    omega
  | mixed hsplit hwhole hfraction hlength =>
    have hpoint := ofChars?_point hwhole
      (fun c hc => hdigits c (hsplit ▸ List.mem_append_left _ hc))
      fun c hc => hdigits c (hsplit ▸ List.mem_append_right _ hc)
    have hnone : d.exponent.toNat = 0 := by omega
    refine hpoint.trans ?_
    rw [← hsplit, hvalue, hlength, hnone, pow_zero, mul_one]
    congr 2
    omega
  | small h =>
    have hzero : ∀ c ∈ ['0'], c.isDigit := List.forall_mem_singleton.2 rfl
    have hfraction : ∀ c ∈ zeros (-d.leading - 1).toNat ++ Nat.toDigits 10 d.significand,
        c.isDigit := fun c hc =>
      (List.mem_append.1 hc).elim isDigit_of_mem_zeros (hdigits c)
    have hlength : 0 < (Nat.toDigits 10 d.significand).length := List.length_pos_iff.2 hne
    have hnone : d.exponent.toNat = 0 := by omega
    refine (ofChars?_point (List.cons_ne_nil '0' []) hzero hfraction).trans ?_
    rw [digitsValue_append, digitsValue_append, digitsValue_zeros, hvalue, List.length_append,
      length_zeros, hnone, pow_zero, mul_one]
    congr 2
    · simp [digitsValue]
    · omega

/-! ### Notation with a power of ten -/

/-- The digits of a decimal, one of them before the point, and then the power of ten of that one,
with a sign and at least two digits. -/
def IsScientific (d : Decimal) (text : List Char) : Prop :=
  ∃ (first : Char) (others power : List Char), Nat.toDigits 10 d.significand = first :: others ∧
    text = first :: (if others = [] then [] else '.' :: others) ++
      'E' :: (if d.leading < 0 then '-' else '+') :: power ∧
    2 ≤ power.length ∧ (∀ c ∈ power, c.isDigit) ∧ digitsValue power = d.leading.natAbs

theorem isScientific_exponentText (d : Decimal) :
    IsScientific d (exponentText (Nat.toDigits 10 d.significand) d.leading) := by
  obtain ⟨first, others, hdigits⟩ := List.exists_cons_of_ne_nil
    (@Nat.toDigits_ne_nil d.significand 10)
  refine ⟨first, others, zeros (2 - (Nat.toDigits 10 d.leading.natAbs).length) ++
    Nat.toDigits 10 d.leading.natAbs, hdigits, ?_, ?_, ?_, ?_⟩
  · rw [hdigits]
    cases others with
    | nil => simp [exponentText]
    | cons second others => simp [exponentText]
  · rw [List.length_append, length_zeros]
    omega
  · exact fun c hc => (List.mem_append.1 hc).elim isDigit_of_mem_zeros isDigit_of_mem_toDigits
  · rw [digitsValue_append, digitsValue_zeros, digitsValue_toDigits, mul_zero, zero_add]

/-- With a power of ten a decimal is read as itself. -/
theorem IsScientific.ofChars? {d : Decimal} {text : List Char} (h : IsScientific d text) :
    Decimal.ofChars? text = some d := by
  obtain ⟨first, others, power, hdigits, rfl, hlength, hpower, hvalue⟩ := h
  have hall : ∀ c ∈ first :: others, c.isDigit := fun c hc =>
    isDigit_of_mem_toDigits (hdigits ▸ hc)
  have hfirst : ∀ c ∈ [first], c.isDigit := by simpa using hall first
  have hne : power ≠ [] := by
    rintro rfl
    simp at hlength
  have hscale : (if d.leading < 0 then -(digitsValue power : ℤ) else digitsValue power) =
      d.leading := by
    rw [hvalue]
    split_ifs <;> omega
  have hresult : (⟨digitsValue (first :: others), d.leading - others.length⟩ : Decimal) = d := by
    rw [← hdigits, digitsValue_toDigits, Decimal.leading, digitCount, hdigits, List.length_cons,
      Nat.cast_succ, ← add_assoc, add_sub_cancel_right, add_sub_cancel_right]
  by_cases hothers : others = []
  · have hread := @Decimal.ofChars?_power _ _ (d.leading < 0) _ (List.cons_ne_nil first []) hne
      hfirst hpower
    subst hothers
    rw [List.length_nil, Nat.cast_zero, sub_zero] at hresult
    rw [hscale, hresult] at hread
    rw [if_pos rfl]
    exact hread
  · have hread := @Decimal.ofChars?_point_power _ others _ (d.leading < 0) _
      (List.cons_ne_nil first []) hne hfirst hpower
      (fun c hc => hall c (List.mem_cons_of_mem first hc))
    rw [hscale, List.singleton_append, List.singleton_append, hresult] at hread
    rw [if_neg hothers, ← hread]
    simp

/-! ### Both notations -/

/-- The text starts with a digit and has no blanks. -/
structure StartsWithDigit (text : List Char) : Prop where
  head : ∃ first rest, text = first :: rest ∧ first.isDigit
  unbroken : ∀ c ∈ text, Text.isBlank c = false

theorem IsPositional.isDigit_or_eq {d : Decimal} {text : List Char} (h : IsPositional d text)
    {c : Char} (hc : c ∈ text) : c.isDigit ∨ c = '.' := by
  have hdigits : ∀ c ∈ Nat.toDigits 10 d.significand, c.isDigit := fun c => isDigit_of_mem_toDigits
  cases h with
  | whole =>
    exact .inl ((List.mem_append.1 hc).elim (hdigits c) isDigit_of_mem_zeros)
  | mixed hsplit =>
    rw [hsplit] at hdigits
    rcases List.mem_append.1 hc with hc | hc
    · exact .inl (hdigits c (List.mem_append_left _ hc))
    · rcases List.mem_cons.1 hc with rfl | hc
      · exact .inr rfl
      · exact .inl (hdigits c (List.mem_append_right _ hc))
  | small =>
    rcases List.mem_cons.1 hc with rfl | hc
    · exact .inl rfl
    · rcases List.mem_cons.1 hc with rfl | hc
      · exact .inr rfl
      · exact .inl ((List.mem_append.1 hc).elim isDigit_of_mem_zeros (hdigits c))

theorem IsPositional.startsWithDigit {d : Decimal} {text : List Char} (h : IsPositional d text) :
    StartsWithDigit text := by
  have hdigits : ∀ c ∈ Nat.toDigits 10 d.significand, c.isDigit := fun c => isDigit_of_mem_toDigits
  constructor
  · obtain ⟨first, others, hfirst⟩ := List.exists_cons_of_ne_nil
      (@Nat.toDigits_ne_nil d.significand 10)
    rw [hfirst] at hdigits
    cases h with
    | whole =>
      rw [hfirst]
      exact ⟨first, _, rfl, hdigits first List.mem_cons_self⟩
    | mixed hsplit hwhole =>
      obtain ⟨head, rest, rfl⟩ := List.exists_cons_of_ne_nil hwhole
      rw [← hfirst, hsplit] at hdigits
      exact ⟨head, _, rfl, hdigits head List.mem_cons_self⟩
    | small => exact ⟨'0', _, rfl, rfl⟩
  · intro c hc
    rcases h.isDigit_or_eq hc with hdigit | rfl
    · exact Text.isBlank_of_isDigit hdigit
    · decide

theorem IsScientific.startsWithDigit {d : Decimal} {text : List Char} (h : IsScientific d text) :
    StartsWithDigit text := by
  obtain ⟨first, others, power, hdigits, rfl, -, hpower, -⟩ := h
  have hall : ∀ c ∈ first :: others, c.isDigit := fun c hc =>
    isDigit_of_mem_toDigits (hdigits ▸ hc)
  refine ⟨⟨first, _, rfl, hall first List.mem_cons_self⟩, ?_⟩
  have hsign : Text.isBlank (if d.leading < 0 then '-' else '+') = false := by
    split_ifs <;> decide
  have hothers : ∀ c ∈ (if others = [] then [] else '.' :: others), Text.isBlank c = false := by
    intro c hc
    split_ifs at hc with hnone
    · cases hc
    · rcases List.mem_cons.1 hc with rfl | hc
      · decide
      · exact Text.isBlank_of_isDigit (hall c (List.mem_cons_of_mem first hc))
  simp only [List.cons_append, List.forall_mem_cons, List.forall_mem_append]
  exact ⟨Text.isBlank_of_isDigit (hall first List.mem_cons_self), hothers, by decide, hsign,
    fun c hc => Text.isBlank_of_isDigit (hpower c hc)⟩

/-- A text with a power of ten is not positional. -/
theorem IsScientific.not_isPositional {d : Decimal} {text : List Char} (h : IsScientific d text) :
    ¬ IsPositional d text := by
  obtain ⟨first, others, power, -, rfl, -⟩ := h
  intro hpositional
  have hmark := @IsPositional.isDigit_or_eq _ _ hpositional 'E' (by simp)
  exact absurd hmark (by decide)

/-- Zeros at the end do not change a decimal. -/
theorem Decimal.value_padded (d : Decimal) (padding : ℕ) :
    Decimal.value ⟨d.significand * 10 ^ padding, d.exponent - padding⟩ = d.value := by
  unfold Decimal.value
  rw [zpow_sub₀ (by norm_num), zpow_natCast]
  push_cast
  field_simp

/-- A decimal is written in one of the two notations, as the style says. -/
theorem decimalText_cases (style : Style) (d : Decimal) :
    (style.positional d.leading = true ∧ IsPositional d (style.decimalText d)) ∨
      (style.positional d.leading = false ∧ IsScientific d (style.decimalText d)) := by
  have htext : style.decimalText d = if style.positional d.leading then
      positionalText (Nat.toDigits 10 d.significand) d.leading
      else exponentText (Nat.toDigits 10 d.significand) d.leading := rfl
  rw [htext]
  cases hpositional : style.positional d.leading with
  | true => exact .inl ⟨rfl, isPositional_positionalText d⟩
  | false => exact .inr ⟨rfl, isScientific_exponentText d⟩

/-- In both notations a decimal is read as itself, up to zeros at its end. -/
theorem decimalText_reads (style : Style) (d : Decimal) :
    StartsWithDigit (style.decimalText d) ∧
      ∃ padding : ℕ, Decimal.ofChars? (style.decimalText d) =
        some ⟨d.significand * 10 ^ padding, d.exponent - padding⟩ := by
  rcases decimalText_cases style d with ⟨-, hform⟩ | ⟨-, hform⟩
  · exact ⟨hform.startsWithDigit, _, hform.ofChars?⟩
  · refine ⟨hform.startsWithDigit, 0, ?_⟩
    rw [pow_zero, mul_one, Nat.cast_zero, sub_zero]
    exact hform.ofChars?

/-- A decimal that reads back as a positive number is read as it in every style, with and without
a sign. -/
theorem ofChars?_decimalText (style : Style) {x : Float} {v : ℚ} (hx : rational? x = some v)
    (hpos : 0 < v) {d : Decimal} (hreads : d.toFloat = x) :
    ofChars? (style.decimalText d) = some x ∧
      ofChars? ('-' :: style.decimalText d) = some (-x) := by
  obtain ⟨hstart, padding, hread⟩ := decimalText_reads style d
  obtain ⟨first, rest, htext, hfirst⟩ := hstart.head
  have hpadded : (⟨d.significand * 10 ^ padding, d.exponent - padding⟩ : Decimal).toFloat = x := by
    rw [Decimal.toFloat_eq_iff hx hpos, Decimal.value_padded, ← Decimal.toFloat_eq_iff hx hpos]
    exact hreads
  have hplain : ofChars? (style.decimalText d) = some x := by
    rw [htext, ofChars?_of_isDigit hfirst, ← htext, hread, Option.map_some, hpadded]
  refine ⟨hplain, ?_⟩
  have hsigned : ofChars? ('-' :: style.decimalText d) =
      (unsigned? (style.decimalText d)).map (- ·) := rfl
  rw [htext, ofChars?_eq_unsigned? hfirst, ← htext] at hplain
  rw [hsigned, hplain, Option.map_some]

/-! ### The text of a number -/

section Sign

open Float.Model UnpackedFloat

/-- A number is its absolute value with its sign. -/
theorem abs_of_unpack {x : Float} {sign : Sign} {mantissa : ℕ} {exponent : ℤ}
    {hpos : 0 < mantissa} (h : x.toModel.unpack = .finite sign mantissa exponent hpos) :
    rational? x.abs = some ((mantissa : ℚ) * 2 ^ exponent) ∧
      x = if isNegative sign then -x.abs else x.abs := by
  obtain ⟨hcanonical, hexponent⟩ := canonical_unpack h
  have habs : x.abs.toModel.unpack = .finite .positive mantissa exponent hpos := by
    change UnpackedFloat.unpack Format.binary64 (UnpackedFloat.pack Format.binary64
      x.toModel.unpack.abs) = _
    rw [h]
    exact unpack_pack hpos hcanonical hexponent
  constructor
  · rw [rational?, habs, ← value_positive]
    rfl
  · cases sign with
    | positive =>
      change x = x.abs
      rw [← ofModel_pack_unpack x.abs, habs, ← h, ofModel_pack_unpack]
    | negative =>
      change x = Float.ofModel (.pack x.abs.toModel.unpack.neg)
      rw [habs]
      change x = Float.ofModel (.pack (.finite .negative mantissa exponent hpos))
      rw [← h, ofModel_pack_unpack]

/-- The text of a number that is not zero is a sign and a shortest decimal for its absolute
value. -/
theorem exists_render_of_unpack (style : Style) {x : Float} {sign : Sign} {mantissa : ℕ}
    {exponent : ℤ} {hpos : 0 < mantissa}
    (h : x.toModel.unpack = .finite sign mantissa exponent hpos) :
    ∃ d, IsShortest x.abs d ∧ (style.render x).toList =
      if isNegative sign then '-' :: style.decimalText d else style.decimalText d := by
  have hparts : Binary.ofFloat? x = some ⟨isNegative sign, mantissa, exponent⟩ := by
    rw [ofFloat?_eq_parts?, h]
    rfl
  refine ⟨shortest x.abs ⟨isNegative sign, mantissa, exponent⟩,
    isShortest_shortest (abs_of_unpack h).1 hpos, ?_⟩
  simp [Style.render, hparts, hpos.ne']

end Sign

/-- The text of a number is read as the number. -/
theorem ofChars?_render (x : Float) :
    ofChars? (Text.trimBlanks (Style.value.render x).toList) = some x := by
  rw [← ofModel_pack_unpack x]
  cases hform : x.toModel.unpack with
  | notANumber => decide +kernel
  | infinity sign => cases sign <;> decide +kernel
  | zero sign => cases sign <;> decide +kernel
  | finite sign mantissa exponent hpos =>
    obtain ⟨hvalue, hsign⟩ := abs_of_unpack hform
    rw [← hform, ofModel_pack_unpack]
    obtain ⟨d, hshortest, htext⟩ := exists_render_of_unpack Style.value hform
    obtain ⟨hplain, hminus⟩ :=
      ofChars?_decimalText Style.value hvalue (by positivity) hshortest.reads
    obtain ⟨hstart, -⟩ := decimalText_reads Style.value d
    rw [htext]
    cases sign with
    | positive =>
      have hsame : x = x.abs := hsign
      change ofChars? (Text.trimBlanks (Style.value.decimalText d)) = some x
      rw [Text.trimBlanks_eq_self hstart.unbroken, hplain, ← hsame]
    | negative =>
      have hsame : x = -x.abs := hsign
      change ofChars? (Text.trimBlanks ('-' :: Style.value.decimalText d)) = some x
      rw [Text.trimBlanks_eq_self (List.forall_mem_cons.2 ⟨by decide, hstart.unbroken⟩), hminus,
        ← hsame]

end Betty.Number

namespace Betty

open Number

/-- A number is written as a sign and the digits of a shortest decimal, positionally exactly if
the first digit has a weight between `10 ^ (-4)` and `10 ^ 14` and with a power of ten otherwise,
and what is written denotes that decimal. The text of every number, whether finite or not, is read
as exactly that number. The pool yields this text as long as it has no more than 2³² texts. -/
theorem number_text_round_trips (x : Float) (fuel : ℕ) (machine : Machine) :
    (∃ (value : Interned) (after : Machine),
      Intrinsic.apply fuel .tostr [.number x] machine = .done (.text value) after ∧
      (after.heap.texts.texts.size ≤ UInt32.size → value.text = Style.value.render x ∧
        Intrinsic.apply fuel .tonum [.text value] after = .done (.number x) after)) ∧
    (∀ value : Interned, value.text = Style.value.render x →
      Intrinsic.apply fuel .tonum [.text value] machine = .done (.number x) machine) ∧
    ∀ v, rational? x = some v → v ≠ 0 →
      ∃ (d : Decimal) (digits : List Char), IsShortest x.abs d ∧
        (Style.value.render x).toList = (if v < 0 then '-' :: digits else digits) ∧
        (IsPositional d digits ↔ -4 ≤ d.leading ∧ d.leading ≤ 14) ∧
        (IsPositional d digits → Decimal.ofChars? digits =
          some ⟨d.significand * 10 ^ d.exponent.toNat, d.exponent - d.exponent.toNat⟩) ∧
        (¬ IsPositional d digits → IsScientific d digits ∧ Decimal.ofChars? digits = some d) := by
  have hread : ∀ (value : Interned) (machine : Machine), value.text = Style.value.render x →
      Intrinsic.apply fuel .tonum [.text value] machine = .done (.number x) machine := by
    intro value machine htext
    have hconverted : Intrinsic.toNumber (.text value) = .ok x := by
      simp [Intrinsic.toNumber, htext, ofChars?_render]
    change Eval.onHeap (Intrinsic.converted (Intrinsic.toNumber _) Value.number) machine = _
    rw [hconverted]
    rfl
  have hwritten : Intrinsic.apply fuel .tostr [.number x] machine =
      Eval.onHeap (HeapAction.newText (Style.value.render x)) machine := by
    have hdisplay : machine.heap.display (.number x) = Style.value.render x := by
      simp [Heap.display, Heap.displayWithin]
    rw [← hdisplay]
    rfl
  refine ⟨⟨_, _, hwritten, fun hsize => ?_⟩, fun value => hread value machine, fun v hv hne => ?_⟩
  · have htext := Pool.text_intern hsize
    exact ⟨htext, hread _ _ htext⟩
  · obtain ⟨sign, mantissa, exponent, hpos, hform, rfl⟩ := exists_unpack_of_ne_zero hv hne
    have hsign := @Binary.value_neg_iff ⟨isNegative sign, mantissa, exponent⟩ hpos
    obtain ⟨d, hshortest, htext⟩ := exists_render_of_unpack Style.value hform
    have hstyle : Style.value.positional d.leading = true ↔ -4 ≤ d.leading ∧ d.leading ≤ 14 := by
      simp [Style.value]
    refine ⟨d, Style.value.decimalText d, hshortest, ?_, ?_⟩
    · rw [if_congr hsign rfl rfl, ← htext]
    · rw [← hstyle]
      rcases decimalText_cases Style.value d with ⟨hrange, hpositional⟩ | ⟨hrange, hscientific⟩
      · exact ⟨iff_of_true hpositional hrange, fun h => h.ofChars?,
          fun hnot => absurd hpositional hnot⟩
      · exact ⟨iff_of_false hscientific.not_isPositional (by simp [hrange]), fun h => h.ofChars?,
          fun _ => ⟨hscientific, hscientific.ofChars?⟩⟩

/-- The number `-2 ^ 60` has nineteen digits, of which sixteen are written. The number 1200 is
written with two zeros after its digits. -/
theorem number_text_round_trips_notations :
    let large := Float.ofBits 0xC3B0000000000000
    let small := Float.ofBits 0x4092C00000000000
    let machine := Machine.initial (.ofInput [])
    rational? large = some (-2 ^ 60) ∧ rational? small = some 1200 ∧
    (∃ value after, Intrinsic.apply 0 .tostr [.number large] machine = .done (.text value) after ∧
      value.text = "-1.152921504606847E+18" ∧
      Intrinsic.apply 0 .tonum [.text value] after = .done (.number large) after) ∧
    (∃ value after, Intrinsic.apply 0 .tostr [.number small] machine = .done (.text value) after ∧
      value.text = "1200" ∧
      Intrinsic.apply 0 .tonum [.text value] after = .done (.number small) after) ∧
    (∃ d, IsShortest large.abs d ∧ IsScientific d "1.152921504606847E+18".toList) ∧
    ∃ d, IsShortest small.abs d ∧ IsPositional d "1200".toList ∧
      d.significand * 10 ^ d.exponent.toNat = 1200 := by
  intro large small machine
  have hlargeParts : parts? large.toModel.unpack = some ⟨true, 2 ^ 52, 8⟩ := by decide +kernel
  have hsmallParts : parts? small.toModel.unpack = some ⟨false, 1200 * 2 ^ 42, -42⟩ := by
    decide +kernel
  have hlarge : rational? large = some (-2 ^ 60) := by
    rw [rational?, hlargeParts, Option.map_some]
    norm_num [Binary.value]
  have hsmall : rational? small = some 1200 := by
    rw [rational?, hsmallParts, Option.map_some]
    norm_num [Binary.value]
  have hlargeText : Style.value.render large = "-1.152921504606847E+18" := by decide +kernel
  have hsmallText : Style.value.render small = "1200" := by decide +kernel
  obtain ⟨⟨value, after, hwritten, hback⟩, -, hdigits⟩ := number_text_round_trips large 0 machine
  obtain ⟨⟨value', after', hwritten', hback'⟩, -, hdigits'⟩ :=
    number_text_round_trips small 0 machine
  have hsize : ∀ {x : Float} {value : Interned} {after : Machine},
      Intrinsic.apply 0 .tostr [.number x] machine = .done (.text value) after →
      after.heap.texts.texts.size ≤ UInt32.size := by
    intro x value after hdone
    cases hdone
    exact (Pool.empty.size_intern_le _).trans (by decide)
  obtain ⟨htext, hread⟩ := hback (hsize hwritten)
  obtain ⟨htext', hread'⟩ := hback' (hsize hwritten')
  obtain ⟨d, digits, hshortest, hlist, -, -, hscientific⟩ := hdigits _ hlarge (by norm_num)
  obtain ⟨d', digits', hshortest', hlist', -, -, hscientific'⟩ :=
    hdigits' _ hsmall (by norm_num)
  rw [hlargeText, if_pos (by norm_num)] at hlist
  rw [hsmallText, if_neg (by norm_num)] at hlist'
  have hsame : digits = "1.152921504606847E+18".toList :=
    (List.cons.inj hlist).2.symm.trans (by decide)
  refine ⟨hlarge, hsmall, ⟨value, after, hwritten, htext.trans hlargeText, hread⟩,
    ⟨value', after', hwritten', htext'.trans hsmallText, hread'⟩, ⟨d, hshortest, ?_⟩,
    d', hshortest', ?_⟩
  · rw [← hsame]
    refine (hscientific fun hpositional => ?_).1
    rw [hsame] at hpositional
    exact absurd (@IsPositional.isDigit_or_eq _ _ hpositional 'E' (by decide)) (by decide)
  · have hpositional : IsPositional d' "1200".toList := by
      by_contra hnot
      rw [hlist'] at hnot
      obtain ⟨first, others, power, -, htext, -⟩ := (hscientific' hnot).1
      have hmark : 'E' ∈ "1200".toList := by
        rw [hlist', htext]
        simp
      exact absurd hmark (by decide)
    have hread : Decimal.ofChars? "1200".toList = some ⟨1200, 0⟩ := by decide +kernel
    rw [hpositional.ofChars?, Option.some.injEq, Decimal.mk.injEq] at hread
    exact ⟨hpositional, hread.1⟩

end Betty
