import Betty.Proofs.Machine.Fuel
import Betty.Proofs.Number.Increment
import Betty.Proofs.Parser.RoundTrip

/-!
# Ranges

The intrinsic `range` counts up from one number in steps of one as long as it is below another.
The steps are additions of numbers, which round. So counting ends exactly where no step that it
needs is rounded away, and what it has counted then is strictly increasing.

## Main definitions

* `Intrinsic.counted`: the number after some steps.
* `CountEnds`: the bounds between which counting ends.

## Main results

* `countUp_eq_some_iff`: what has been counted when counting ends.
* `exists_not_lt_iff`: where counting ends.
* `countsTo_of_countUp`: what a list of counted numbers is like.
* `ends_range_call`: the calls of `range` that end, and the lists that they yield.
-/

namespace Betty

open Number

/-! ### Counting -/

namespace Intrinsic

/-- The number after some steps of one. -/
def counted (start : Float) : ℕ → Float
  | 0 => start
  | steps + 1 => counted start steps + 1

/-- The numbers before a number of steps. -/
def countedItems (start : Float) (steps : ℕ) : Array Value :=
  ((List.range steps).map fun i => .number (counted start i)).toArray

theorem counted_add_one (start : Float) (steps : ℕ) :
    counted (start + 1) steps = counted start (steps + 1) := by
  induction steps with
  | zero => rfl
  | succ steps ih => exact congrArg (· + 1) ih

theorem countedItems_succ (start : Float) (steps : ℕ) :
    countedItems start (steps + 1) = #[.number start] ++ countedItems (start + 1) steps := by
  have hshift : (fun i => Value.number (counted start i)) ∘ Nat.succ =
      fun i => Value.number (counted (start + 1) i) := by
    funext i
    rw [Function.comp_apply, counted_add_one]
  unfold countedItems
  rw [List.range_succ_eq_map, List.map_cons, List.map_map, hshift]
  simp [counted]

@[simp]
theorem size_countedItems (start : Float) (steps : ℕ) :
    (countedItems start steps).size = steps := by
  simp [countedItems]

/-- Counting ends at the first number that is not below the bound, with those before it. -/
theorem countUp_eq_some_iff {stop start : Float} {fuel : ℕ} {found items : Array Value} :
    countUp stop fuel start found = some items ↔
      ∃ steps < fuel, (∀ i < steps, counted start i < stop) ∧ ¬ counted start steps < stop ∧
        items = found ++ countedItems start steps := by
  induction fuel generalizing start found with
  | zero => simp [countUp]
  | succ fuel ih =>
    rw [countUp]
    by_cases hbelow : start < stop
    · rw [if_pos hbelow, ih]
      constructor
      · rintro ⟨steps, hlt, hless, hend, rfl⟩
        refine ⟨steps + 1, by omega, ?_, ?_, ?_⟩
        · intro i hi
          cases i with
          | zero => exact hbelow
          | succ i =>
            rw [← counted_add_one]
            exact hless i (by omega)
        · rwa [← counted_add_one]
        · rw [countedItems_succ, ← Array.append_assoc, Array.push_eq_append]
      · rintro ⟨steps, hlt, hless, hend, rfl⟩
        cases steps with
        | zero => exact absurd hbelow hend
        | succ steps =>
          refine ⟨steps, by omega, ?_, ?_, ?_⟩
          · intro i hi
            rw [counted_add_one]
            exact hless (i + 1) (by omega)
          · rwa [counted_add_one]
          · rw [countedItems_succ, ← Array.append_assoc, Array.push_eq_append]
    · rw [if_neg hbelow]
      constructor
      · rintro ⟨⟩
        exact ⟨0, by omega, fun i hi => absurd hi (Nat.not_lt_zero i), hbelow, by
          simp [countedItems]⟩
      · rintro ⟨steps, -, hless, -, rfl⟩
        cases steps with
        | zero => simp [countedItems]
        | succ steps => exact absurd (hless 0 (Nat.succ_pos _)) hbelow

/-- Counting ends if some number is not below the bound. -/
theorem exists_countUp_iff {stop start : Float} {found : Array Value} :
    (∃ fuel items, countUp stop fuel start found = some items) ↔
      ∃ steps, ¬ counted start steps < stop := by
  classical
  constructor
  · rintro ⟨fuel, items, h⟩
    obtain ⟨steps, -, -, hend, -⟩ := countUp_eq_some_iff.1 h
    exact ⟨steps, hend⟩
  · intro h
    refine ⟨Nat.find h + 1, _, countUp_eq_some_iff.2
      ⟨Nat.find h, by omega, fun i hi => ?_, Nat.find_spec h, rfl⟩⟩
    exact not_not.1 (Nat.find_min h hi)

end Intrinsic

open Intrinsic

/-! ### The values of the numbers that are counted -/

section

variable {x stop : Float} {v b : ℚ}

/-- A number that one does not make larger stays the same for ever. -/
theorem rational?_counted_of_stuck (hx : rational? x = some v) (h : ¬ Advances v) (steps : ℕ) :
    rational? (counted x steps) = some v := by
  have hlarge := (small_or_large v).resolve_left fun hsmall => h (.inl hsmall)
  rw [advances_iff_of_large hlarge] at h
  induction steps with
  | zero => exact hx
  | succ steps ih => exact (rational?_add_one_of_large ih hlarge).2 h

theorem exists_rational?_counted (hx : rational? x = some v) (steps : ℕ) :
    ∃ r, rational? (counted x steps) = some r ∧ v ≤ r := by
  induction steps with
  | zero => exact ⟨v, hx, le_rfl⟩
  | succ steps ih =>
    obtain ⟨r, hr, hle⟩ := ih
    obtain ⟨s, hs, hle'⟩ := exists_rational?_add_one hr
    exact ⟨s, hs, hle.trans hle'⟩

/-! ### Where counting ends -/

/-- Around the units, counting reaches every bound. -/
theorem exists_not_lt_of_small (hstop : rational? stop = some b) (hb : b ≤ 2 ^ 53)
    (hx : rational? x = some v) (hlow : -2 ^ 53 ≤ v) : ∃ steps, ¬ counted x steps < stop := by
  -- Every step takes at least a half off the way that is left, or it is the last one.
  obtain ⟨halves, hhalves⟩ := exists_nat_ge ((b - v) * 2)
  induction halves generalizing x v with
  | zero =>
    refine ⟨0, ?_⟩
    rw [counted, lt_iff_of_rational? hx hstop]
    push_cast at hhalves
    linarith
  | succ halves ih =>
    by_cases hbelow : v < b
    · obtain ⟨r, hr, hlt, -, hfar, -⟩ := rational?_add_one_of_small hx hlow (hbelow.trans_le hb)
      rcases hfar with hhalf | hlast
      · push_cast at hhalves
        obtain ⟨steps, hsteps⟩ := ih hr (by linarith) (by linarith)
        exact ⟨steps + 1, by rwa [← counted_add_one]⟩
      · refine ⟨1, ?_⟩
        change ¬ x + 1 < stop
        rw [lt_iff_of_rational? hr hstop, hlast]
        exact not_lt.2 hb
    · refine ⟨0, ?_⟩
      rwa [counted, lt_iff_of_rational? hx hstop]

/-- Around the units, counting does not get beyond them. -/
theorem counted_lt_of_small (hstop : rational? stop = some b) (hb : 2 ^ 53 < b)
    (hx : rational? x = some v) (hlow : -2 ^ 53 ≤ v) (hhigh : v ≤ 2 ^ 53) (steps : ℕ) :
    counted x steps < stop := by
  have hvalue : ∃ r, rational? (counted x steps) = some r ∧ -2 ^ 53 ≤ r ∧ r ≤ 2 ^ 53 := by
    induction steps with
    | zero => exact ⟨v, hx, hlow, hhigh⟩
    | succ steps ih =>
      obtain ⟨r, hr, hlow, hhigh⟩ := ih
      rcases hhigh.lt_or_eq with hlt | rfl
      · obtain ⟨s, hs, hless, hle, -⟩ := rational?_add_one_of_small hr hlow hlt
        exact ⟨s, hs, by linarith, hle⟩
      · exact ⟨_, rational?_counted_of_stuck hr not_advances_bound 1, hlow, le_rfl⟩
  obtain ⟨r, hr, -, hle⟩ := hvalue
  rw [lt_iff_of_rational? hr hstop]
  linarith

/-- A number that stays the same for ever is below every bound that it is below. -/
theorem counted_lt_of_stuck (hstop : rational? stop = some b) (hx : rational? x = some v)
    (h : ¬ Advances v) (hbelow : v < b) (steps : ℕ) : counted x steps < stop := by
  rwa [lt_iff_of_rational? (rational?_counted_of_stuck hx h steps) hstop]

end

/-- The bounds between which counting ends: there is nothing to count, all steps stay where the
units are kept, or one step from a tie is enough. -/
def CountEnds (first last : ℚ) : Prop :=
  last ≤ first ∨ (-2 ^ 53 - 2 ≤ first ∧ last ≤ 2 ^ 53) ∨ (TwiceOdd first ∧ last ≤ first + 2)

section

variable {start stop : Float} {a b : ℚ}

theorem exists_not_lt_of_countEnds (hstart : rational? start = some a)
    (hstop : rational? stop = some b) (h : CountEnds a b) :
    ∃ steps, ¬ counted start steps < stop := by
  rcases h with hnothing | ⟨hlow, hb⟩ | ⟨hodd, hb⟩
  · refine ⟨0, ?_⟩
    rw [counted, lt_iff_of_rational? hstart hstop]
    exact not_lt.2 hnothing
  · by_cases hsmall : -2 ^ 53 ≤ a
    · exact exists_not_lt_of_small hstop hb hstart hsmall
    · -- There is only one number left, and a tie leads from it to where the units are kept.
      rw [not_le] at hsmall
      obtain ⟨k, hk⟩ := exists_eq_two_mul hstart (.inl hsmall)
      have hkey : k = -2 ^ 52 - 1 := by
        have hlow' : ((-2 ^ 52 - 1 : ℤ) : ℚ) ≤ k := by push_cast; linarith
        have hsmall' : (k : ℚ) < ((-2 ^ 52 : ℤ) : ℚ) := by push_cast; linarith
        have hlow'' : -2 ^ 52 - 1 ≤ k := by exact_mod_cast hlow'
        have hsmall'' : k < -2 ^ 52 := by exact_mod_cast hsmall'
        omega
      have hodd : TwiceOdd a := by
        rw [hk, TwiceOdd.iff_odd, hkey]
        decide
      have hnext := (rational?_add_one_of_large hstart (.inl hsmall)).1 hodd
      obtain ⟨steps, hsteps⟩ := exists_not_lt_of_small hstop hb hnext (by linarith)
      exact ⟨steps + 1, by rwa [← counted_add_one]⟩
  · rcases small_or_large a with hsmall | hlarge
    · obtain ⟨k, -, hk⟩ := hodd
      have hk' : k + 1 ≤ 2 ^ 52 := by
        have : (k : ℚ) < ((2 ^ 52 : ℤ) : ℚ) := by push_cast; linarith
        have : k < 2 ^ 52 := by exact_mod_cast this
        omega
      have hcast : (k : ℚ) + 1 ≤ 2 ^ 52 := by exact_mod_cast hk'
      exact exists_not_lt_of_small hstop (by linarith) hstart hsmall.1
    · refine ⟨1, ?_⟩
      change ¬ start + 1 < stop
      rw [lt_iff_of_rational? ((rational?_add_one_of_large hstart hlarge).1 hodd) hstop]
      exact not_lt.2 hb

theorem counted_lt_of_not_countEnds (hstart : rational? start = some a)
    (hstop : rational? stop = some b) (h : ¬ CountEnds a b) (steps : ℕ) :
    counted start steps < stop := by
  simp only [CountEnds, not_or, not_and, not_le] at h
  obtain ⟨hbelow, hunits, htie⟩ := h
  rcases small_or_large a with hsmall | hlarge
  · exact counted_lt_of_small hstop (hunits (by linarith)) hstart hsmall.1 hsmall.2.le steps
  · by_cases hodd : TwiceOdd a
    · -- One step leads to a number that is not twice an odd one.
      cases steps with
      | zero => rwa [counted, lt_iff_of_rational? hstart hstop]
      | succ steps =>
        rw [← counted_add_one]
        have hnext := (rational?_add_one_of_large hstart hlarge).1 hodd
        rcases small_or_large (a + 2) with hsmall | hlarge'
        · exact counted_lt_of_small hstop (hunits (by linarith)) hnext hsmall.1 hsmall.2.le steps
        · have hstuck : ¬ Advances (a + 2) := by
            rw [advances_iff_of_large hlarge']
            exact hodd.not_add_two
          exact counted_lt_of_stuck hstop hnext hstuck (htie hodd) steps
    · have hstuck : ¬ Advances a := by rwa [advances_iff_of_large hlarge]
      exact counted_lt_of_stuck hstop hstart hstuck hbelow steps

/-- Counting reaches its bound exactly if the bounds are such that it ends. -/
theorem exists_not_lt_iff (hstart : rational? start = some a) (hstop : rational? stop = some b) :
    (∃ steps, ¬ counted start steps < stop) ↔ CountEnds a b := by
  constructor
  · rintro ⟨steps, hsteps⟩
    by_contra h
    exact hsteps (counted_lt_of_not_countEnds hstart hstop h steps)
  · exact exists_not_lt_of_countEnds hstart hstop

/-! ### What has been counted -/

/-- If counting ends, every step on the way has made the number larger. -/
theorem counted_lt_succ (hstart : rational? start = some a) (hstop : rational? stop = some b)
    {steps : ℕ} (hless : ∀ i < steps, counted start i < stop)
    (hend : ¬ counted start steps < stop) {i : ℕ} (hi : i < steps) :
    counted start i < counted start (i + 1) := by
  obtain ⟨v, hv, -⟩ := exists_rational?_counted hstart i
  change counted start i < counted start i + 1
  rw [lt_add_one_iff hv]
  by_contra hstuck
  have hbelow : v < b := (lt_iff_of_rational? hv hstop).1 (hless i hi)
  apply hend
  have hrest : ∀ more, counted (counted start i) more = counted start (i + more) := by
    intro more
    induction more with
    | zero => rfl
    | succ more ih => exact congrArg (· + 1) ih
  have hlast := counted_lt_of_stuck hstop hv hstuck hbelow (steps - i)
  rwa [hrest, Nat.add_sub_cancel' hi.le] at hlast

theorem counted_strictMono (hstart : rational? start = some a) (hstop : rational? stop = some b)
    {steps : ℕ} (hless : ∀ i < steps, counted start i < stop)
    (hend : ¬ counted start steps < stop) {i j : ℕ} (hij : i < j) (hj : j ≤ steps) :
    counted start i < counted start j := by
  induction j, hij using Nat.le_induction with
  | base => exact counted_lt_succ hstart hstop hless hend (by omega)
  | succ j hij ih =>
    obtain ⟨u, hu, -⟩ := exists_rational?_counted hstart i
    obtain ⟨v, hv, -⟩ := exists_rational?_counted hstart j
    obtain ⟨w, hw, -⟩ := exists_rational?_counted hstart (j + 1)
    have hearlier := ih (by omega)
    have hstep := counted_lt_succ hstart hstop hless hend (show j < steps by omega)
    rw [lt_iff_of_rational? hu hv] at hearlier
    rw [lt_iff_of_rational? hv hw] at hstep
    rw [lt_iff_of_rational? hu hw]
    exact hearlier.trans hstep

/-- From an integer where the units are kept, every step is exact. -/
theorem rational?_counted_of_integer (hstop : rational? stop = some b) {n : ℤ}
    (hstart : rational? start = some (n : ℚ)) (hlow : -2 ^ 53 ≤ (n : ℚ)) (hb : b ≤ 2 ^ 53)
    {steps : ℕ} (hless : ∀ i < steps, counted start i < stop) {i : ℕ} (hi : i ≤ steps) :
    rational? (counted start i) = some ((n + i : ℤ) : ℚ) := by
  induction i with
  | zero =>
    rw [Nat.cast_zero, add_zero]
    exact hstart
  | succ i ih =>
    have hvalue := ih (by omega)
    have hbelow : ((n + i : ℤ) : ℚ) < b :=
      (lt_iff_of_rational? hvalue hstop).1 (hless i (by omega))
    have hlow' : -2 ^ 53 ≤ ((n + i : ℤ) : ℚ) := by
      push_cast
      have : (0 : ℚ) ≤ i := by positivity
      linarith
    obtain ⟨r, hr, -, -, -, hexact⟩ :=
      rational?_add_one_of_small hvalue hlow' (hbelow.trans_le hb)
    rw [hexact _ rfl] at hr
    change rational? (counted start i + 1) = _
    rw [hr]
    push_cast
    rw [add_assoc]

/-- From an integer where the units are kept, as many numbers are counted as lie below the
bound. -/
theorem steps_eq_ceil (hstop : rational? stop = some b) {n : ℤ}
    (hstart : rational? start = some (n : ℚ)) (hlow : -2 ^ 53 ≤ (n : ℚ)) (hb : b ≤ 2 ^ 53)
    {steps : ℕ} (hless : ∀ i < steps, counted start i < stop)
    (hend : ¬ counted start steps < stop) : steps = ⌈b - n⌉₊ := by
  have hexact := @rational?_counted_of_integer start stop b hstop n hstart hlow hb steps hless
  apply le_antisymm
  · cases steps with
    | zero => exact Nat.zero_le _
    | succ i =>
      have hlast := hless i (by omega)
      rw [lt_iff_of_rational? (hexact (by omega)) hstop] at hlast
      push_cast at hlast
      exact Nat.lt_ceil.2 (by linarith)
  · rw [lt_iff_of_rational? (hexact le_rfl) hstop] at hend
    push_cast at hend
    exact Nat.ceil_le.2 (by linarith)

end

/-- What has been counted from one number up to another, with the given exact values: the numbers
after all steps before the first one that is not below the bound. They increase, and there are
none only if the bound is not above. From an integer where the units are kept, every number is
exact. -/
structure CountsTo (start stop : Float) (first last : ℚ) (items : Array Value) : Prop where
  steps : items = countedItems start items.size
  below : ∀ i < items.size, counted start i < stop
  ended : ¬ counted start items.size < stop
  increasing : ∀ i j, i < j → j < items.size → counted start i < counted start j
  empty : items = #[] ↔ last ≤ first
  integral : ∀ n : ℤ, first = n → -2 ^ 53 ≤ first → last ≤ 2 ^ 53 →
    items.size = ⌈last - first⌉₊ ∧
      ∀ i < items.size, rational? (counted start i) = some (first + i)

theorem countsTo_of_countUp {start stop : Float} {a b : ℚ} (hstart : rational? start = some a)
    (hstop : rational? stop = some b) {fuel : ℕ} {items : Array Value}
    (h : countUp stop fuel start #[] = some items) : CountsTo start stop a b items := by
  obtain ⟨steps, -, hless, hend, hitems⟩ := countUp_eq_some_iff.1 h
  rw [Array.empty_append] at hitems
  have hsize : items.size = steps := by rw [hitems, size_countedItems]
  subst hsize
  refine ⟨hitems, hless, hend, ?_, ?_, ?_⟩
  · intro i j hij hj
    exact counted_strictMono hstart hstop hless hend hij hj.le
  · rw [← Array.size_eq_zero_iff]
    constructor
    · intro hzero
      rw [hzero, Intrinsic.counted, lt_iff_of_rational? hstart hstop] at hend
      exact not_lt.1 hend
    · intro hle
      by_contra hpos
      have hfirst := hless 0 (Nat.pos_of_ne_zero hpos)
      rw [Intrinsic.counted, lt_iff_of_rational? hstart hstop] at hfirst
      exact absurd hle (not_le.2 hfirst)
  · rintro n rfl hlow hb
    refine ⟨steps_eq_ceil hstop hstart hlow hb hless hend, ?_⟩
    intro i hi
    rw [rational?_counted_of_integer hstop hstart hlow hb hless hi.le]
    push_cast
    rfl

/-! ### Calls of `range` -/

/-- A new list of the numbers that have been counted, unless counting has been cut off. -/
def Machine.withCounted (machine : Machine) :
    Option (Array Value) → Outcome RuntimeError Machine Value
  | some items => .done (.list machine.heap.cells.size)
      { machine with heap := (machine.heap.alloc items).2 }
  | none => .outOfFuel

section

variable {place : Position} {first last : Expr} {machine middle after : Machine}
  {start stop : Float}

theorem evaluate_range_call {fuel : ℕ}
    (hfirst : evaluate (fuel + 2) first machine = .done (.number start) middle)
    (hlast : evaluate (fuel + 1) last middle = .done (.number stop) after) :
    evaluate (fuel + 5) (.call place (.named "range") [first, last]) machine =
      after.withCounted (countUp stop (fuel + 3) start #[]) := by
  have hname : Intrinsic.ofName? "range" = some .range := by decide
  have harguments : (Plan.evaluateAll (fuel + 3) [first, last]).run machine =
      .done [.number start, .number stop] after := by
    change (evaluate (fuel + 2) first >>= fun value =>
      (evaluate (fuel + 1) last >>= fun value => pure [] >>= fun values =>
        pure (value :: values)) >>= fun values => pure (value :: values)) machine = _
    simp only [bind, Action.bind, hfirst, hlast]
    rfl
  have hcall : (Plan.call (fuel + 4) (.named "range") [first, last]).run machine =
      after.withCounted (countUp stop (fuel + 3) start #[]) := by
    rw [Plan.call, hname]
    change Action.bind (Plan.evaluateAll (fuel + 3) [first, last]).run _ machine = _
    unfold Action.bind
    rw [harguments]
    change Eval.onHeap (rangeOf (fuel + 3) (.number start) (.number stop)) after = _
    unfold Eval.onHeap rangeOf
    dsimp only
    cases countUp stop (fuel + 3) start #[] with
    | none => rfl
    | some items => rfl
  change Eval.located place (Plan.call (fuel + 4) (.named "range") [first, last]).run machine = _
  unfold Eval.located
  rw [hcall]
  cases countUp stop (fuel + 3) start #[] with
  | none => rfl
  | some items => rfl

/-- A call of `range` ends as counting does, with a new list of what has been counted. -/
theorem ends_range_call (hfirst : first.Ends machine (.done (.number start) middle))
    (hlast : last.Ends middle (.done (.number stop) after))
    {outcome : Outcome RuntimeError Machine Value} :
    (Expr.call place (.named "range") [first, last]).Ends machine outcome ↔
      ∃ fuel items, countUp stop fuel start #[] = some items ∧
        outcome = after.withCounted (some items) := by
  obtain ⟨least, hleast⟩ := Eval.Ends.eventually hfirst (evaluate_steady first)
  obtain ⟨least', hleast'⟩ := Eval.Ends.eventually hlast (evaluate_steady last)
  have hrun : ∀ fuel, least + least' ≤ fuel →
      evaluate (fuel + 5) (.call place (.named "range") [first, last]) machine =
        after.withCounted (countUp stop (fuel + 3) start #[]) := fun fuel hle =>
    evaluate_range_call (hleast _ (by omega)) (hleast' _ (by omega))
  constructor
  · intro h
    obtain ⟨fuel, hfuel⟩ := Eval.Ends.eventually h (evaluate_steady _)
    have hended := hfuel (fuel + least + least' + 5) (by omega)
    rw [hrun _ (by omega)] at hended
    cases hcounted : countUp stop (fuel + least + least' + 3) start #[] with
    | none =>
      rw [hcounted] at hended
      exact absurd hended.symm h.1
    | some items =>
      rw [hcounted] at hended
      exact ⟨_, items, hcounted, hended.symm⟩
  · rintro ⟨fuel, items, hcounted, rfl⟩
    refine ⟨by simp [Machine.withCounted], fuel + least + least' + 5, ?_⟩
    dsimp only
    rw [hrun _ (by omega), countUp_of_le stop (by omega) hcounted]

end

namespace Grammar

open Reading

variable {bare : Bool} {numeral : Float → List Char}

theorem listOrRange_takes_range {fuel : ℕ} {first last : Expr} {rest : List Lexeme}
    (place : Position) (hfirst : first.Everywhere (normalNodes numeral))
    (hlast : last.Everywhere (normalNodes numeral)) :
    (listOrRange fuel place).Takes
      (first.lexemes bare ++ .symbol .dotDot ::
        (last.lexemes bare ++ .symbol .rightBracket :: rest))
      rest fun expr => ∃ lower upper, expr = .call place (.named "range") [lower, upper] ∧
        lower.unplaced = first.unplaced ∧ upper.unplaced = last.unplaced := by
  cases fuel with
  | zero => exact .exhausted
  | succ fuel =>
    have ih := readable bare numeral fuel
    have hstarts : Starts Lexeme.startsExpr (first.lexemes bare) := by
      obtain ⟨lexeme, more, hcons, hlexeme, -⟩ := Expr.lexemes_first hfirst
      exact ⟨lexeme, more, hcons, hlexeme⟩
    rw [listOrRange]
    refine .ifNotSymbol (hstarts.not_isSymbol rfl _) ?_
    refine .bind (ih.exprForm hfirst rfl) fun lower hlower => ?_
    refine .ifSymbol (.seq .advance fun _ => ?_)
    refine .bind (ih.exprForm hlast rfl) fun upper hupper => ?_
    exact .seq (.expectSymbol _) fun _ => .pure ⟨lower, upper, rfl, hlower, hupper⟩

/-- The range notation is read as a call of `range`. -/
theorem primary_range {fuel : ℕ} {first last : Expr} {rest : List Lexeme} {input : Input}
    (hfirst : first.Everywhere (normalNodes numeral))
    (hlast : last.Everywhere (normalNodes numeral))
    (hfaces : input.Faces (.symbol .leftBracket :: (first.lexemes bare ++ .symbol .dotDot ::
      (last.lexemes bare ++ .symbol .rightBracket :: rest))))
    (hfuel : 16 * input.ahead.length + 1 ≤ fuel) :
    ∃ place lower upper final,
      primary fuel input = .done (.call place (.named "range") [lower, upper]) final ∧
      lower.unplaced = first.unplaced ∧ upper.unplaced = last.unplaced ∧ final.Faces rest := by
  obtain ⟨fuel, rfl⟩ := Nat.exists_eq_add_of_le' (show 1 ≤ fuel by omega)
  have htakes : (primary (fuel + 1)).Takes (.symbol .leftBracket :: (first.lexemes bare ++
      .symbol .dotDot :: (last.lexemes bare ++ .symbol .rightBracket :: rest))) rest
      fun expr => ∃ place lower upper, expr = .call place (.named "range") [lower, upper] ∧
        lower.unplaced = first.unplaced ∧ upper.unplaced = last.unplaced := by
    rw [primary]
    refine .seq .position fun place => .look (.seq .advance fun _ => ?_)
    exact (listOrRange_takes_range place hfirst hlast).imp fun _ h => ⟨place, h⟩
  have hends := (rules .any (fuel + 1)).primary (Outlook.any_braces (.loose 0) input)
  have hmade := htakes input hfaces
  cases hread : primary (fuel + 1) input with
  | done expr final =>
    rw [hread] at hmade
    obtain ⟨⟨place, lower, upper, rfl, hlower, hupper⟩, hfinal⟩ := hmade
    exact ⟨place, lower, upper, final, rfl, hlower, hupper, hfinal⟩
  | failed error final =>
    rw [hread] at hmade
    exact hmade.elim
  | outOfFuel =>
    rw [hread] at hends
    have hcut : fuel + 1 < 16 * input.ahead.length + 1 := hends
    omega

end Grammar

/-- The calls of `range` with finite bounds, also in the range notation, and the lists that they
yield. One makes a number larger exactly if the number advances; counting ends exactly between
bounds where every step that is needed does so; then the list is what has been counted. -/
theorem range_counts {start stop : Float} {a b : ℚ} (hstart : rational? start = some a)
    (hstop : rational? stop = some b) :
    (∀ (x : Float) (v : ℚ), rational? x = some v → (x < x + 1 ↔ Advances v)) ∧
    ((∃ fuel items, countUp stop fuel start #[] = some items) ↔ CountEnds a b) ∧
    (∀ fuel items, countUp stop fuel start #[] = some items → CountsTo start stop a b items) ∧
    (∀ (place : Position) (first last : Expr) (machine middle after : Machine),
      first.Ends machine (.done (.number start) middle) →
      last.Ends middle (.done (.number stop) after) →
      ∀ outcome, (Expr.call place (.named "range") [first, last]).Ends machine outcome ↔
        ∃ fuel items, countUp stop fuel start #[] = some items ∧
          outcome = after.withCounted (some items)) ∧
    (∀ (bare : Bool) (numeral : Float → List Char) (first last : Expr) (rest : List Lexeme)
      (input : Input) (fuel : ℕ), first.Everywhere (normalNodes numeral) →
      last.Everywhere (normalNodes numeral) →
      input.Faces (.symbol .leftBracket :: (first.lexemes bare ++ .symbol .dotDot ::
        (last.lexemes bare ++ .symbol .rightBracket :: rest))) →
      16 * input.ahead.length + 1 ≤ fuel →
      ∃ place lower upper final,
        Grammar.primary fuel input = .done (.call place (.named "range") [lower, upper]) final ∧
        lower.unplaced = first.unplaced ∧ upper.unplaced = last.unplaced ∧
        final.Faces rest) := by
  refine ⟨fun x v hx => lt_add_one_iff hx, ?_, ?_, ?_, ?_⟩
  · rw [exists_countUp_iff]
    exact exists_not_lt_iff hstart hstop
  · intro fuel items h
    exact countsTo_of_countUp hstart hstop h
  · intro place first last machine middle after hfirst hlast outcome
    exact ends_range_call hfirst hlast
  · intro bare numeral first last rest input fuel hfirst hlast hfaces hfuel
    exact Grammar.primary_range hfirst hlast hfaces hfuel

theorem rational?_eq_of_parts? {x : Float} {parts : Binary} {q : ℚ}
    (hparts : parts? x.toModel.unpack = some parts) (hvalue : parts.value = q) :
    rational? x = some q := by
  unfold rational?
  rw [hparts, Option.map_some, hvalue]

/-- Counting across the numbers where a tie leads upwards. -/
theorem range_counts_across_tie :
    let start : Float := -9007199254740994
    let stop : Float := -9007199254740990
    rational? start = some (-2 ^ 53 - 2) ∧ rational? stop = some (-2 ^ 53 + 2) ∧
      CountEnds (-2 ^ 53 - 2) (-2 ^ 53 + 2) ∧
      ∃ fuel items, countUp stop fuel start #[] = some items ∧
        CountsTo start stop (-2 ^ 53 - 2) (-2 ^ 53 + 2) items := by
  intro start stop
  have hstart : rational? start = some (-2 ^ 53 - 2) :=
    @rational?_eq_of_parts? _ ⟨true, 2 ^ 52 + 1, 1⟩ _ (by decide +kernel)
      (by norm_num [Binary.value])
  have hstop : rational? stop = some (-2 ^ 53 + 2) :=
    @rational?_eq_of_parts? _ ⟨true, 2 ^ 53 - 2, 0⟩ _ (by decide +kernel)
      (by norm_num [Binary.value])
  have hends : CountEnds (-2 ^ 53 - 2) (-2 ^ 53 + 2) := .inr (.inl (by norm_num))
  obtain ⟨-, hiff, hcounts, -⟩ := range_counts hstart hstop
  obtain ⟨fuel, items, h⟩ := hiff.2 hends
  exact ⟨hstart, hstop, hends, fuel, items, h, hcounts fuel items h⟩

/-- Counting from the first number whose neighbour is two away up to that neighbour never ends,
and where it ends, the numbers need not be the sums of the first one with whole numbers. -/
theorem range_without_end :
    (let start : Float := 9007199254740992
    let stop : Float := 9007199254740994
    rational? start = some (2 ^ 53) ∧ rational? stop = some (2 ^ 53 + 2) ∧ start < stop ∧
      ¬ start < start + 1 ∧ ∀ fuel, countUp stop fuel start #[] = none) ∧
    (let start : Float := 0.0000000000000006
    countUp 3 4 start #[] = some (countedItems start 3) ∧ counted start 2 ≠ start + 2) := by
  refine ⟨?_, ?_⟩
  · intro start stop
    have hstart : rational? start = some (2 ^ 53) :=
      @rational?_eq_of_parts? _ ⟨false, 2 ^ 52, 1⟩ _ (by decide +kernel)
        (by norm_num [Binary.value])
    have hstop : rational? stop = some (2 ^ 53 + 2) :=
      @rational?_eq_of_parts? _ ⟨false, 2 ^ 52 + 1, 1⟩ _ (by decide +kernel)
        (by norm_num [Binary.value])
    have hbelow : start < stop := (lt_iff_of_rational? hstart hstop).2 (by norm_num)
    refine ⟨hstart, hstop, hbelow, ?_, ?_⟩
    · rw [lt_add_one_iff hstart]
      exact not_advances_bound
    · intro fuel
      rw [Option.eq_none_iff_forall_ne_some]
      intro items hitems
      obtain ⟨steps, -, -, hend, -⟩ := countUp_eq_some_iff.1 hitems
      exact hend (counted_lt_of_stuck hstop hstart not_advances_bound (by norm_num) steps)
  · intro start
    refine ⟨countUp_eq_some_iff.2 ⟨3, by decide, ?_, by decide +kernel, ?_⟩, by decide +kernel⟩
    · intro i hi
      interval_cases i
      · decide +kernel
      · decide +kernel
      · decide +kernel
    · rw [Array.empty_append]

end Betty
