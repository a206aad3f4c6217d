import Betty.Proofs.Jumps
import Betty.Proofs.Machine.Fuel

/-!
# Switches

A switch compares its subject with its patterns in order and stops at the first one that is
equal. If there is none, it chooses the place without a pattern. Expressions and statements do
this alike. From there on an expression evaluates the result of the one arm that it has chosen,
while a statement executes the bodies of all cases from the chosen one on, as if they stood in
one block.

## Main definitions

* `Scans`: how the comparison of a value with patterns ends.
* `Concludes`: how the search for an arm ends, which evaluates its result at once.
* `Chooses`: how the choice of an arm ends.
* `Outcome.leaveSwitch`: what is seen of the bodies of a switch from outside.

## Main results

* `ends_equalArm`, `ends_equalCase`: both kinds of switches compare in the same way.
* `ends_executeCases`: falling through cases is the execution of all their statements in a row.
* `switches_alike`: how switches of both kinds end.
-/

namespace Betty

open Eval

/-! ### Choosing an arm -/

/-- `Scans value position patterns machine outcome`: the value is compared with the patterns in
order, the first of which has the number `position`, up to the first one that is equal to it.
The outcome is the number of that one, if there is one, and the machine after the last pattern
that has been evaluated. -/
inductive Scans (value : Value) : Nat → List (Option Expr) → Machine →
    Outcome RuntimeError Machine (Option Nat) → Prop
  | nil {position : Nat} {machine : Machine} :
      Scans value position [] machine (.done none machine)
  | skip {position : Nat} {rest : List (Option Expr)} {machine : Machine}
      {outcome : Outcome RuntimeError Machine (Option Nat)}
      (later : Scans value (position + 1) rest machine outcome) :
      Scans value position (none :: rest) machine outcome
  | failed {position : Nat} {pattern : Expr} {rest : List (Option Expr)} {machine after : Machine}
      {error : RuntimeError} (failure : pattern.Ends machine (.failed error after)) :
      Scans value position (some pattern :: rest) machine (.failed error after)
  | equal {position : Nat} {pattern : Expr} {rest : List (Option Expr)} {machine after : Machine}
      {candidate : Value} (evaluated : pattern.Ends machine (.done candidate after))
      (same : equalValues after.heap value candidate) :
      Scans value position (some pattern :: rest) machine (.done (some position) after)
  | unequal {position : Nat} {pattern : Expr} {rest : List (Option Expr)}
      {machine middle : Machine} {candidate : Value}
      {outcome : Outcome RuntimeError Machine (Option Nat)}
      (evaluated : pattern.Ends machine (.done candidate middle))
      (different : ¬ equalValues middle.heap value candidate)
      (later : Scans value (position + 1) rest middle outcome) :
      Scans value position (some pattern :: rest) machine outcome

/-- `Chooses subject patterns machine outcome`: the subject is evaluated, and then compared with
the patterns. The outcome is the value of the subject, the number of the first pattern that is
equal to it or else of the first place without a pattern, and the machine at this moment. -/
inductive Chooses (subject : Expr) (patterns : List (Option Expr)) (machine : Machine) :
    Outcome RuntimeError Machine (Value × Option Nat) → Prop
  | subjectFailed {error : RuntimeError} {after : Machine}
      (failure : subject.Ends machine (.failed error after)) :
      Chooses subject patterns machine (.failed error after)
  | patternFailed {value : Value} {middle after : Machine} {error : RuntimeError}
      (evaluated : subject.Ends machine (.done value middle))
      (failure : Scans value 0 patterns middle (.failed error after)) :
      Chooses subject patterns machine (.failed error after)
  | equal {value : Value} {middle after : Machine} {position : Nat}
      (evaluated : subject.Ends machine (.done value middle))
      (found : Scans value 0 patterns middle (.done (some position) after)) :
      Chooses subject patterns machine (.done (value, some position) after)
  | otherwise {value : Value} {middle after : Machine}
      (evaluated : subject.Ends machine (.done value middle))
      (missed : Scans value 0 patterns middle (.done none after)) :
      Chooses subject patterns machine (.done (value, patterns.findIdx? Option.isNone) after)

/-- `Concludes arms position scanned outcome`: the search for an arm ends with this outcome when
the comparison, which has started at the number `position`, has ended as `scanned` says. The
result of the equal arm is evaluated right then. -/
inductive Concludes (arms : List Arm) (position : Nat) :
    Outcome RuntimeError Machine (Option Nat) → Outcome RuntimeError Machine (Option Value) → Prop
  | failed {error : RuntimeError} {after : Machine} :
      Concludes arms position (.failed error after) (.failed error after)
  | missed {after : Machine} : Concludes arms position (.done none after) (.done none after)
  | result {i : Nat} {arm : Arm} {after last : Machine} {result : Value}
      (found : arms[i]? = some arm) (evaluated : arm.result.Ends after (.done result last)) :
      Concludes arms position (.done (some (position + i)) after) (.done (some result) last)
  | resultFailed {i : Nat} {arm : Arm} {after last : Machine} {error : RuntimeError}
      (found : arms[i]? = some arm) (failure : arm.result.Ends after (.failed error last)) :
      Concludes arms position (.done (some (position + i)) after) (.failed error last)

/-- The number that is found is that of a pattern. -/
theorem Scans.found {value : Value} {patterns : List (Option Expr)} {start position : Nat}
    {machine after : Machine}
    (h : Scans value start patterns machine (.done (some position) after)) :
    start ≤ position ∧ position < start + patterns.length := by
  generalize houtcome : Outcome.done (some position) after = outcome at h
  induction h with
  | nil => cases houtcome
  | skip _ ih =>
    have hfound := ih houtcome
    rw [List.length_cons]
    omega
  | failed _ => cases houtcome
  | equal _ _ =>
    cases houtcome
    rw [List.length_cons]
    omega
  | unequal _ _ _ ih =>
    have hfound := ih houtcome
    rw [List.length_cons]
    omega

/-- If the first arm is not the equal one, the search goes on with the others. -/
theorem Scans.concludes_cons {value : Value} {arms : List Arm} {position : Nat} {machine : Machine}
    {scanned : Outcome RuntimeError Machine (Option Nat)}
    (h : Scans value (position + 1) (arms.map Arm.pattern) machine scanned) (first : Arm)
    {outcome : Outcome RuntimeError Machine (Option Value)} :
    Concludes (first :: arms) position scanned outcome ↔
      Concludes arms (position + 1) scanned outcome := by
  constructor
  · intro hconcludes
    cases hconcludes with
    | failed => exact .failed
    | missed => exact .missed
    | @result i arm after last result found evaluated =>
      obtain ⟨j, rfl⟩ : ∃ j, i = j + 1 := ⟨i - 1, by have := h.found; omega⟩
      rw [Nat.add_comm j, ← Nat.add_assoc]
      exact .result found evaluated
    | @resultFailed i arm after last error found failure =>
      obtain ⟨j, rfl⟩ : ∃ j, i = j + 1 := ⟨i - 1, by have := h.found; omega⟩
      rw [Nat.add_comm j, ← Nat.add_assoc]
      exact .resultFailed found failure
  · intro hconcludes
    cases hconcludes with
    | failed => exact .failed
    | missed => exact .missed
    | @result i arm after last result found evaluated =>
      rw [Nat.add_assoc, Nat.add_comm 1 i]
      exact .result found evaluated
    | @resultFailed i arm after last error found failure =>
      rw [Nat.add_assoc, Nat.add_comm 1 i]
      exact .resultFailed found failure

/-- If the first arm is the equal one, its result is evaluated. -/
theorem concludes_first {first : Arm} {arms : List Arm} {position : Nat} {after : Machine}
    {outcome : Outcome RuntimeError Machine (Option Value)} :
    Concludes (first :: arms) position (.done (some position) after) outcome ↔
      ∃ inner, first.result.Ends after inner ∧
        inner.Followed (fun result last outcome => outcome = .done (some result) last) outcome := by
  constructor
  · intro h
    generalize hscanned : Outcome.done (some position) after = scanned at h
    cases h with
    | failed => cases hscanned
    | missed => cases hscanned
    | @result i arm _ last result found evaluated =>
      injection hscanned with hnumber hafter
      obtain rfl : i = 0 := by
        injection hnumber with hnumber
        omega
      cases found
      exact ⟨.done result last, hafter ▸ evaluated, rfl⟩
    | @resultFailed i arm _ last error found failure =>
      injection hscanned with hnumber hafter
      obtain rfl : i = 0 := by
        injection hnumber with hnumber
        omega
      cases found
      exact ⟨.failed error last, hafter ▸ failure, rfl⟩
  · rintro ⟨inner, hinner, hended⟩
    cases inner with
    | done result last =>
      cases hended
      exact .result (i := 0) rfl hinner
    | failed error last =>
      cases hended
      exact .resultFailed (i := 0) rfl hinner
    | outOfFuel => exact hended.elim

theorem equalArm_steady (value : Value) (arms : List Arm) :
    Steady fun fuel => (Plan.equalArm fuel value arms).run :=
  fun _ _ h => ((approximating h).equalArm value arms).run

theorem equalCase_steady (value : Value) (cases : List Case) (position : Nat) :
    Steady fun fuel => (Plan.equalCase fuel value cases position).run :=
  fun _ _ h => ((approximating h).equalCase value cases position).run

section

variable (fuel : Nat) (value : Value) (pattern : Expr)

/-- A case with a pattern: if it is equal the search is over. -/
theorem run_equalCase (body : List Stmt) (rest : List Case) (position : Nat) :
    (Plan.equalCase (fuel + 1) value (⟨some pattern, body⟩ :: rest) position).run =
      (do
        let candidate ← evaluate fuel pattern
        if ← Action.gets fun machine : Machine => equalValues machine.heap value candidate then
          pure (some position)
        else (Plan.equalCase fuel value rest (position + 1)).run) := by
  rw [Plan.equalCase]
  change (evaluate fuel pattern >>= fun candidate => Action.gets _ >>= fun equal : Bool =>
    Plan.run (if equal then _ else _)) = _
  simp only [apply_ite Plan.run]
  rfl

/-- An arm with a pattern: if it is equal its result is evaluated. -/
theorem run_equalArm (result : Expr) (rest : List Arm) :
    (Plan.equalArm (fuel + 1) value (⟨some pattern, result⟩ :: rest)).run =
      (do
        let candidate ← evaluate fuel pattern
        if ← Action.gets fun machine : Machine => equalValues machine.heap value candidate then
          let found ← evaluate fuel result
          pure (some found)
        else (Plan.equalArm fuel value rest).run) := by
  rw [Plan.equalArm]
  change (evaluate fuel pattern >>= fun candidate => Action.gets _ >>= fun equal : Bool =>
    Plan.run (if equal then _ else _)) = _
  simp only [apply_ite Plan.run]
  rfl

end

/-- The first equal case is found by comparing one after another. -/
theorem ends_equalCase {value : Value} {cases : List Case} {position : Nat}
    {machine : Machine} {outcome : Outcome RuntimeError Machine (Option Nat)} :
    Ends (fun fuel => (Plan.equalCase fuel value cases position).run) machine outcome ↔
      Scans value position (cases.map Case.pattern) machine outcome := by
  induction cases generalizing position machine with
  | nil =>
    rw [← ends_succ (equalCase_steady value [] position)]
    simp only [Plan.equalCase]
    refine ends_pure.trans ⟨?_, fun h => ?_⟩
    · rintro rfl
      exact .nil
    · cases h
      rfl
  | cons first rest ih =>
    obtain ⟨pattern, body⟩ := first
    rw [← ends_succ (equalCase_steady value (⟨pattern, body⟩ :: rest) position)]
    cases pattern with
    | none =>
      simp only [Plan.equalCase]
      refine ih.trans ⟨.skip, fun h => ?_⟩
      cases h with
      | skip later => exact later
    | some pattern =>
      simp only [run_equalCase]
      refine (ends_bind (evaluate_steady pattern) fun candidate => ?_).trans ?_
      · exact .bind (.const _) fun _ => .ite (.const _) (equalCase_steady value rest _)
      constructor
      · rintro ⟨middle, hpattern, hfollowed⟩
        cases middle with
        | done candidate after =>
          have hcompared := ends_query.1 hfollowed
          split at hcompared
          · next hsame =>
            cases ends_pure.1 hcompared
            exact .equal hpattern hsame
          · next hdifferent => exact .unequal hpattern hdifferent (ih.1 hcompared)
        | failed error after =>
          cases hfollowed
          exact .failed hpattern
        | outOfFuel => exact hfollowed.elim
      · intro h
        cases h with
        | failed failure => exact ⟨_, failure, rfl⟩
        | equal evaluated same =>
          refine ⟨_, evaluated, ends_query.2 ?_⟩
          rw [if_pos same]
          exact ends_pure.2 rfl
        | unequal evaluated different later =>
          refine ⟨_, evaluated, ends_query.2 ?_⟩
          rw [if_neg different]
          exact ih.2 later

/-- The first equal arm is found by the same comparison, and its result is evaluated. -/
theorem ends_equalArm {value : Value} {arms : List Arm} {position : Nat} {machine : Machine}
    {outcome : Outcome RuntimeError Machine (Option Value)} :
    Ends (fun fuel => (Plan.equalArm fuel value arms).run) machine outcome ↔
      ∃ scanned, Scans value position (arms.map Arm.pattern) machine scanned ∧
        Concludes arms position scanned outcome := by
  induction arms generalizing position machine with
  | nil =>
    rw [← ends_succ (equalArm_steady value [])]
    simp only [Plan.equalArm]
    refine ends_pure.trans ⟨?_, ?_⟩
    · rintro rfl
      exact ⟨_, .nil, .missed⟩
    · rintro ⟨_, ⟨⟩, ⟨⟩⟩
      rfl
  | cons arm rest ih =>
    obtain ⟨pattern, result⟩ := arm
    rw [← ends_succ (equalArm_steady value (⟨pattern, result⟩ :: rest))]
    cases pattern with
    | none =>
      simp only [Plan.equalArm]
      constructor
      · intro h
        obtain ⟨scanned, hscans, hconcludes⟩ := ih.1 h
        exact ⟨scanned, .skip hscans, (hscans.concludes_cons _).2 hconcludes⟩
      · rintro ⟨scanned, hscans, hconcludes⟩
        cases hscans with
        | skip later => exact ih.2 ⟨scanned, later, (later.concludes_cons _).1 hconcludes⟩
    | some pattern =>
      simp only [run_equalArm]
      refine (ends_bind (evaluate_steady pattern) fun candidate => ?_).trans ?_
      · exact .bind (.const _) fun _ => .ite (.bind (evaluate_steady result) fun _ => .const _)
          (equalArm_steady value rest)
      constructor
      · rintro ⟨middle, hpattern, hfollowed⟩
        cases middle with
        | done candidate after =>
          have hcompared := ends_query.1 hfollowed
          split at hcompared
          · next hsame =>
            exact ⟨_, .equal hpattern hsame,
              concludes_first.2 ((ends_bind_pure (evaluate_steady result)).1 hcompared)⟩
          · next hdifferent =>
            obtain ⟨scanned, hscans, hconcludes⟩ := ih.1 hcompared
            exact ⟨scanned, .unequal hpattern hdifferent hscans,
              (hscans.concludes_cons _).2 hconcludes⟩
        | failed error after =>
          cases hfollowed
          exact ⟨_, .failed hpattern, .failed⟩
        | outOfFuel => exact hfollowed.elim
      · rintro ⟨scanned, hscans, hconcludes⟩
        cases hscans with
        | failed failure =>
          cases hconcludes
          exact ⟨_, failure, rfl⟩
        | equal evaluated same =>
          refine ⟨_, evaluated, ends_query.2 ?_⟩
          rw [if_pos same]
          exact (ends_bind_pure (evaluate_steady result)).2 (concludes_first.1 hconcludes)
        | unequal evaluated different later =>
          refine ⟨_, evaluated, ends_query.2 ?_⟩
          rw [if_neg different]
          exact ih.2 ⟨scanned, later, (later.concludes_cons _).1 hconcludes⟩

/-- What a switch statement does before it executes anything: it chooses a case. -/
def Plan.choosing (fuel : Nat) (subject : Expr) (cases : List Case) :
    Plan (Value × Option Nat) := do
  let value ← evaluate fuel subject
  let start ← equalCase fuel value cases 0
  return (value, start <|> cases.findIdx? fun found => found.pattern.isNone)

theorem choosing_steady (subject : Expr) (cases : List Case) :
    Steady fun fuel => (Plan.choosing fuel subject cases).run :=
  .bind (evaluate_steady subject) fun value => .bind (equalCase_steady value cases 0) fun _ =>
    .const _

/-- Cases are chosen as described. -/
theorem ends_choosing {subject : Expr} {cases : List Case} {machine : Machine}
    {outcome : Outcome RuntimeError Machine (Value × Option Nat)} :
    Ends (fun fuel => (Plan.choosing fuel subject cases).run) machine outcome ↔
      Chooses subject (cases.map Case.pattern) machine outcome := by
  have hdefault : ∀ found : Option Nat,
      (found <|> cases.findIdx? fun found => found.pattern.isNone) =
        (found <|> (cases.map Case.pattern).findIdx? Option.isNone) := by
    intro found
    rw [List.findIdx?_map]
    rfl
  change Ends (fun fuel => evaluate fuel subject >>= fun value =>
    (Plan.equalCase fuel value cases 0).run >>= fun start => pure (value, _)) machine outcome ↔ _
  refine (ends_bind (evaluate_steady subject) fun value => ?_).trans ?_
  · exact .bind (equalCase_steady value cases 0) fun _ => .const _
  constructor
  · rintro ⟨evaluated, hsubject, hfollowed⟩
    cases evaluated with
    | done value middle =>
      obtain ⟨scanned, hscanned, hchosen⟩ :=
        (ends_bind_pure (equalCase_steady value cases 0)).1 hfollowed
      have hscans := ends_equalCase.1 hscanned
      cases scanned with
      | done found after =>
        cases hchosen
        rw [hdefault]
        cases found with
        | none => exact .otherwise hsubject hscans
        | some position => exact .equal hsubject hscans
      | failed error after =>
        cases hchosen
        exact .patternFailed hsubject hscans
      | outOfFuel => exact hchosen.elim
    | failed error after =>
      cases hfollowed
      exact .subjectFailed hsubject
    | outOfFuel => exact hfollowed.elim
  · intro h
    cases h with
    | subjectFailed failure => exact ⟨_, failure, rfl⟩
    | patternFailed evaluated failure =>
      refine ⟨_, evaluated, (ends_bind_pure (equalCase_steady _ cases 0)).2 ?_⟩
      exact ⟨_, ends_equalCase.2 failure, rfl⟩
    | equal evaluated found =>
      refine ⟨_, evaluated, (ends_bind_pure (equalCase_steady _ cases 0)).2 ?_⟩
      exact ⟨_, ends_equalCase.2 found, rfl⟩
    | otherwise evaluated missed =>
      refine ⟨_, evaluated, (ends_bind_pure (equalCase_steady _ cases 0)).2 ?_⟩
      exact ⟨_, ends_equalCase.2 missed, congrArg (fun number => Outcome.done (_, number) _)
        (hdefault none).symm⟩

/-- There is only one choice. -/
theorem Chooses.unique {subject : Expr} {patterns : List (Option Expr)} {machine : Machine}
    {choice other : Outcome RuntimeError Machine (Value × Option Nat)}
    (h : Chooses subject patterns machine choice) (h' : Chooses subject patterns machine other) :
    choice = other := by
  -- Any patterns are those of some cases.
  obtain ⟨cases, rfl⟩ : ∃ cases : List Case, cases.map Case.pattern = patterns :=
    ⟨patterns.map fun pattern => ⟨pattern, []⟩, (List.map_map).trans (List.map_id _)⟩
  exact (ends_choosing.2 h).unique (ends_choosing.2 h') (choosing_steady subject cases)

/-- The place that is chosen is one of those that there are. -/
theorem Chooses.lt_length {subject : Expr} {patterns : List (Option Expr)}
    {machine after : Machine} {value : Value} {position : Nat}
    (h : Chooses subject patterns machine (.done (value, some position) after)) :
    position < patterns.length := by
  generalize hchoice : Outcome.done (value, some position) after = choice at h
  cases h with
  | subjectFailed _ => cases hchoice
  | patternFailed _ _ => cases hchoice
  | equal _ found =>
    cases hchoice
    have hlt := found.found.2
    rwa [Nat.zero_add] at hlt
  | otherwise _ _ =>
    injection hchoice with hpair _
    injection hpair with _ hfound
    exact (List.findIdx?_eq_some_iff_findIdx_eq.1 hfound.symm).1

/-- What is chosen is the equal one, or else the first place without a pattern. -/
theorem Chooses.scans {subject : Expr} {patterns : List (Option Expr)} {machine after : Machine}
    {value : Value} {number : Option Nat}
    (h : Chooses subject patterns machine (.done (value, number) after)) :
    ∃ middle, subject.Ends machine (.done value middle) ∧
      ((∃ position, number = some position ∧
          Scans value 0 patterns middle (.done (some position) after)) ∨
        number = patterns.findIdx? Option.isNone ∧
          Scans value 0 patterns middle (.done none after)) := by
  generalize hchoice : Outcome.done (value, number) after = choice at h
  cases h with
  | subjectFailed _ => cases hchoice
  | patternFailed _ _ => cases hchoice
  | equal evaluated found =>
    cases hchoice
    exact ⟨_, evaluated, .inl ⟨_, rfl, found⟩⟩
  | otherwise evaluated missed =>
    cases hchoice
    exact ⟨_, evaluated, .inr ⟨rfl, missed⟩⟩

/-- Choosing a case leaves the control context alone. -/
theorem Chooses.control {subject : Expr} {cases : List Case} {machine after : Machine}
    {chosen : Value × Option Nat}
    (h : Chooses subject (cases.map Case.pattern) machine (.done chosen after)) :
    after.control = machine.control := by
  obtain ⟨_, fuel, hrun⟩ := ends_choosing.2 h
  have hlawful : (Plan.choosing fuel subject cases).Lawful (.only .any) (fun _ => True) .calm
      fun _ => True :=
    .bind (Plan.evaluate_lawful fuel subject) fun value _ =>
      .seq (Plan.equalCase_lawful fuel value cases 0) fun _ => .pure trivial
  have hsame := hlawful.sameContext (Policy.holds_any machine)
  rw [show (Plan.choosing fuel subject cases).run machine = .done chosen after from hrun] at hsame
  exact hsame.control

/-! ### Switch expressions -/

/-- How a switch expression ends, before its errors are placed: with the result of the arm that
has been chosen, and no other result is evaluated. -/
inductive Expr.SwitchEnds (subject : Expr) (arms : List Arm) (machine : Machine) :
    Outcome RuntimeError Machine Value → Prop
  | failed {error : RuntimeError} {after : Machine}
      (choice : Chooses subject (arms.map Arm.pattern) machine (.failed error after)) :
      SwitchEnds subject arms machine (.failed error after)
  | missing {value : Value} {after : Machine}
      (choice : Chooses subject (arms.map Arm.pattern) machine (.done (value, none) after)) :
      SwitchEnds subject arms machine
        (.failed ⟨.noMatchingArm (after.heap.display value), subject.position⟩ after)
  | result {value : Value} {position : Nat} {arm : Arm} {after : Machine}
      {outcome : Outcome RuntimeError Machine Value}
      (choice : Chooses subject (arms.map Arm.pattern) machine
        (.done (value, some position) after))
      (chosen : arms[position]? = some arm) (evaluated : arm.result.Ends after outcome) :
      SwitchEnds subject arms machine outcome

/-- What a switch expression does when it has looked for an equal arm. -/
def answering (subject : Expr) (arms : List Arm) (fuel : Nat) (value : Value) :
    Option Value → Eval Value
  | some result => pure result
  | none =>
    match arms.find? fun arm => arm.pattern.isNone with
    | some fallback => evaluate fuel fallback.result
    | none => do
      let shown ← Action.gets fun machine => machine.heap.display value
      Action.fail ⟨.noMatchingArm shown, subject.position⟩

theorem evaluate_switch (fuel : Nat) (place : Position) (subject : Expr) (arms : List Arm) :
    evaluate (fuel + 1) (.switch place subject arms) =
      Eval.located place (do
        let value ← evaluate fuel subject
        let result ← (Plan.equalArm fuel value arms).run
        answering subject arms fuel value result) := by
  rw [evaluate, Plan.evaluate.eq_def]
  refine congrArg (Eval.located place) (congrArg (evaluate fuel subject >>= ·) ?_)
  funext value
  refine congrArg ((Plan.equalArm fuel value arms).run >>= ·) ?_
  funext result
  cases result with
  | some result => rfl
  | none =>
    unfold answering
    cases arms.find? fun arm => arm.pattern.isNone <;> rfl

theorem answering_steady (subject : Expr) (arms : List Arm) (value : Value)
    (result : Option Value) : Steady fun fuel => answering subject arms fuel value result := by
  intro fuel more hle
  unfold answering
  split
  · exact .refl _
  · split
    · exact evaluate_steady _ fuel more hle
    · exact .refl _

/-- The arm without a pattern is the one whose number is found. -/
theorem find?_isNone (arms : List Arm) :
    (arms.find? fun arm => arm.pattern.isNone) =
      ((arms.map Arm.pattern).findIdx? Option.isNone).bind (arms[·]?) := by
  rw [List.findIdx?_map]
  exact List.find?_eq_bind_findIdx?_getElem?

/-- A switch expression that has found no equal arm takes the one without a pattern. -/
theorem answering_missed {subject : Expr} {arms : List Arm} {value : Value}
    {machine after : Machine}
    (h : Chooses subject (arms.map Arm.pattern) machine
      (.done (value, (arms.map Arm.pattern).findIdx? Option.isNone) after))
    {outcome : Outcome RuntimeError Machine Value} :
    Ends (fun fuel => answering subject arms fuel value none) after outcome ↔
      Expr.SwitchEnds subject arms machine outcome := by
  simp only [answering, find?_isNone]
  cases hindex : (arms.map Arm.pattern).findIdx? Option.isNone with
  | none =>
    rw [hindex] at h
    refine ends_const.trans ⟨?_, fun hends => ?_⟩
    · rintro ⟨_, rfl⟩
      exact .missing h
    · cases hends with
      | failed choice => cases h.unique choice
      | missing choice =>
        cases h.unique choice
        exact ⟨by simp, rfl⟩
      | result choice _ _ => cases h.unique choice
  | some position =>
    rw [hindex] at h
    have hlt := h.lt_length
    rw [List.length_map] at hlt
    have harm := List.getElem?_eq_getElem hlt
    simp only [Option.bind_some, harm]
    refine ⟨.result h harm, fun hends => ?_⟩
    cases hends with
    | failed choice => cases h.unique choice
    | missing choice => cases h.unique choice
    | result choice chosen evaluated =>
      cases h.unique choice
      cases harm.symm.trans chosen
      exact evaluated

/-- How a switch expression ends when it has compared. -/
theorem Concludes.switchEnds {subject : Expr} {arms : List Arm} {value : Value}
    {machine middle : Machine} (hsubject : subject.Ends machine (.done value middle))
    {scanned : Outcome RuntimeError Machine (Option Nat)}
    (hscans : Scans value 0 (arms.map Arm.pattern) middle scanned)
    {found : Outcome RuntimeError Machine (Option Value)} (h : Concludes arms 0 scanned found)
    {outcome : Outcome RuntimeError Machine Value}
    (hfollowed : found.Followed (fun result =>
      Ends fun fuel => answering subject arms fuel value result) outcome) :
    Expr.SwitchEnds subject arms machine outcome := by
  cases h with
  | failed =>
    cases hfollowed
    exact .failed (.patternFailed hsubject hscans)
  | missed => exact (answering_missed (.otherwise hsubject hscans)).1 hfollowed
  | @result i arm after last result harm hresult =>
    rw [Nat.zero_add] at hscans
    cases ends_pure.1 hfollowed
    exact .result (.equal hsubject hscans) harm hresult
  | @resultFailed i arm after last error harm hfailure =>
    rw [Nat.zero_add] at hscans
    cases hfollowed
    exact .result (.equal hsubject hscans) harm hfailure

/-- A switch expression compares, and goes on from there. -/
theorem Expr.SwitchEnds.concludes {subject : Expr} {arms : List Arm} {machine : Machine}
    {outcome : Outcome RuntimeError Machine Value} (h : SwitchEnds subject arms machine outcome) :
    ∃ evaluated, subject.Ends machine evaluated ∧
      evaluated.Followed (fun value middle outcome =>
        ∃ found, Eval.Ends (fun fuel => (Plan.equalArm fuel value arms).run) middle found ∧
          found.Followed (fun result =>
            Eval.Ends fun fuel => answering subject arms fuel value result) outcome) outcome := by
  have hequal : ∀ {value middle scanned found},
      Scans value 0 (arms.map Arm.pattern) middle scanned → Concludes arms 0 scanned found →
        Eval.Ends (fun fuel => (Plan.equalArm fuel value arms).run) middle found :=
    fun hscans hconcludes => ends_equalArm.2 ⟨_, hscans, hconcludes⟩
  have hmissed : ∀ {value middle after}, subject.Ends machine (.done value middle) →
      Scans value 0 (arms.map Arm.pattern) middle (.done none after) →
        Eval.Ends (fun fuel => answering subject arms fuel value none) after outcome :=
    fun hsubject hscans => (answering_missed (.otherwise hsubject hscans)).2 h
  cases h with
  | failed choice =>
    cases choice with
    | subjectFailed failure => exact ⟨_, failure, rfl⟩
    | patternFailed evaluated failure => exact ⟨_, evaluated, _, hequal failure .failed, rfl⟩
  | missing choice =>
    obtain ⟨middle, hsubject, ⟨_, ⟨⟩, _⟩ | ⟨_, hscans⟩⟩ := choice.scans
    exact ⟨_, hsubject, _, hequal hscans .missed, hmissed hsubject hscans⟩
  | @result value position arm after outcome choice chosen evaluated =>
    obtain ⟨middle, hsubject, ⟨_, ⟨⟩, hscans⟩ | ⟨_, hscans⟩⟩ := choice.scans
    · rw [← Nat.zero_add position] at hscans
      cases outcome with
      | done result last =>
        exact ⟨_, hsubject, _, hequal hscans (.result chosen evaluated), ends_pure.2 rfl⟩
      | failed error last =>
        exact ⟨_, hsubject, _, hequal hscans (.resultFailed chosen evaluated), rfl⟩
      | outOfFuel => exact absurd rfl evaluated.1
    · exact ⟨_, hsubject, _, hequal hscans .missed, hmissed hsubject hscans⟩

theorem ends_switch_expression {place : Position} {subject : Expr} {arms : List Arm}
    {machine : Machine} {outcome : Outcome RuntimeError Machine Value} :
    (Expr.switch place subject arms).Ends machine outcome ↔
      ∃ inner, Expr.SwitchEnds subject arms machine inner ∧ outcome = inner.locate place := by
  unfold Expr.Ends
  rw [← ends_succ (evaluate_steady _)]
  simp only [evaluate_switch]
  rw [ends_located]
  refine exists_congr fun inner => and_congr_left' ?_
  refine (ends_bind (evaluate_steady subject) fun value => ?_).trans ?_
  · exact .bind (equalArm_steady value arms) (answering_steady subject arms value)
  have hbind : ∀ {value middle}, Ends (fun fuel => (Plan.equalArm fuel value arms).run >>=
      answering subject arms fuel value) middle inner ↔
      ∃ found, Ends (fun fuel => (Plan.equalArm fuel value arms).run) middle found ∧
        found.Followed (fun result =>
          Ends fun fuel => answering subject arms fuel value result) inner :=
    fun {value _} => ends_bind (equalArm_steady value arms) (answering_steady subject arms value)
  have hequal : ∀ {value middle found},
      Ends (fun fuel => (Plan.equalArm fuel value arms).run) middle found ↔
        ∃ scanned, Scans value 0 (arms.map Arm.pattern) middle scanned ∧
          Concludes arms 0 scanned found := ends_equalArm
  constructor
  · rintro ⟨evaluated, hsubject, hfollowed⟩
    cases evaluated with
    | done value middle =>
      obtain ⟨found, hfound, hanswered⟩ := hbind.1 hfollowed
      obtain ⟨scanned, hscans, hconcludes⟩ := hequal.1 hfound
      exact hconcludes.switchEnds hsubject hscans hanswered
    | failed error after =>
      cases hfollowed
      exact .failed (.subjectFailed hsubject)
    | outOfFuel => exact hfollowed.elim
  · intro h
    obtain ⟨evaluated, hsubject, hfollowed⟩ := h.concludes
    refine ⟨evaluated, hsubject, ?_⟩
    cases evaluated with
    | done value middle => exact hbind.2 hfollowed
    | failed error after => exact hfollowed
    | outOfFuel => exact hfollowed

/-! ### Statements in a row -/

/-- How statements in a row end, when the first part of them has ended like this: as `next`
says in a normal flow, and right there in any other. -/
def Outcome.Resumed (first : Outcome RuntimeError Machine Unit)
    (next : Machine → Outcome RuntimeError Machine Unit → Prop)
    (outcome : Outcome RuntimeError Machine Unit) : Prop :=
  first.Followed (fun _ after outcome =>
    if after.control.isNormal then next after outcome else outcome = .done () after) outcome

theorem Outcome.resumed_congr {first outcome : Outcome RuntimeError Machine Unit}
    {next next' : Machine → Outcome RuntimeError Machine Unit → Prop}
    (h : ∀ after, after.control.isNormal → (next after outcome ↔ next' after outcome)) :
    first.Resumed next outcome ↔ first.Resumed next' outcome := by
  cases first with
  | done value after =>
    unfold Resumed Followed
    dsimp only
    split
    · next hnormal => exact h after hnormal
    · exact Iff.rfl
  | failed error after => exact Iff.rfl
  | outOfFuel => exact Iff.rfl

/-- Three parts in a row can be taken together in either way. -/
theorem Outcome.resumed_assoc {first outcome : Outcome RuntimeError Machine Unit}
    {second third : Machine → Outcome RuntimeError Machine Unit → Prop} :
    (∃ middle, first.Resumed second middle ∧ middle.Resumed third outcome) ↔
      first.Resumed (fun after outcome => ∃ middle, second after middle ∧
        middle.Resumed third outcome) outcome := by
  cases first with
  | done value after =>
    by_cases hnormal : after.control.isNormal
    · simp only [Resumed, Followed, hnormal, if_true]
    · simp [Resumed, Followed, hnormal]
  | failed error after => simp [Resumed, Followed]
  | outOfFuel => simp [Resumed, Followed]

/-- Statements, and what follows them if the flow is normal. -/
theorem run_ifNormal (first second : Plan Unit) :
    Plan.run (do
      first
      if ← Plan.look fun machine => machine.control.isNormal then second else pure ()) =
      (do
        first.run
        if ← Action.gets fun machine : Machine => machine.control.isNormal then second.run
        else pure ()) := by
  change (first.run >>= fun _ => Action.gets _ >>= fun normal : Bool =>
    Plan.run (if normal then _ else _)) = _
  simp only [apply_ite Plan.run]
  rfl

theorem ends_ifNormal {first second : Nat → Plan Unit}
    (hfirst : Steady fun fuel => (first fuel).run)
    (hsecond : Steady fun fuel => (second fuel).run) {machine : Machine}
    {outcome : Outcome RuntimeError Machine Unit} :
    Ends (fun fuel => Plan.run (do
      first fuel
      if ← Plan.look fun machine => machine.control.isNormal then second fuel else pure ()))
      machine outcome ↔
      ∃ middle, Ends (fun fuel => (first fuel).run) machine middle ∧
        middle.Resumed (Ends fun fuel => (second fuel).run) outcome := by
  simp only [run_ifNormal]
  refine (ends_bind hfirst fun _ => ?_).trans ?_
  · exact .bind (.const _) fun _ => .ite hsecond (.const _)
  · refine exists_congr fun middle => and_congr_right fun _ => ?_
    cases middle with
    | done value after =>
      refine ends_query.trans ?_
      unfold Outcome.Resumed Outcome.Followed
      dsimp only
      split
      · exact Iff.rfl
      · exact ends_pure
    | failed error after => exact Iff.rfl
    | outOfFuel => exact Iff.rfl

theorem ends_executeAll_nil {machine : Machine} {outcome : Outcome RuntimeError Machine Unit} :
    Ends (fun fuel => (Plan.executeAll fuel []).run) machine outcome ↔
      outcome = .done () machine := by
  rw [← ends_succ (executeAll_steady [])]
  simp only [Plan.executeAll]
  exact ends_pure

/-- Two rows of statements, one after the other. -/
theorem ends_executeAll_append {first rest : List Stmt} {machine : Machine}
    (hflow : machine.control.isNormal) {outcome : Outcome RuntimeError Machine Unit} :
    Ends (fun fuel => (Plan.executeAll fuel (first ++ rest)).run) machine outcome ↔
      ∃ middle, Ends (fun fuel => (Plan.executeAll fuel first).run) machine middle ∧
        middle.Resumed (Ends fun fuel => (Plan.executeAll fuel rest).run) outcome := by
  induction first generalizing machine outcome with
  | nil => simp [ends_executeAll_nil, Outcome.Resumed, Outcome.Followed, hflow]
  | cons statement first ih =>
    have hcons : ∀ (later : List Stmt) {outcome : Outcome RuntimeError Machine Unit},
        Ends (fun fuel => (Plan.executeAll fuel (statement :: later)).run) machine outcome ↔
          ∃ middle, Ends (fun fuel => execute fuel statement) machine middle ∧
            middle.Resumed (Ends fun fuel => (Plan.executeAll fuel later).run) outcome := by
      intro later outcome
      rw [← ends_succ (executeAll_steady (statement :: later))]
      simp only [Plan.executeAll]
      exact ends_ifNormal (execute_steady statement) (executeAll_steady later)
    rw [List.cons_append, hcons]
    simp only [hcons]
    calc (∃ middle, Ends (fun fuel => execute fuel statement) machine middle ∧
          middle.Resumed (Ends fun fuel => (Plan.executeAll fuel (first ++ rest)).run) outcome)
        ↔ ∃ middle, Ends (fun fuel => execute fuel statement) machine middle ∧
            middle.Resumed (fun after outcome => ∃ last,
              Ends (fun fuel => (Plan.executeAll fuel first).run) after last ∧
                last.Resumed (Ends fun fuel => (Plan.executeAll fuel rest).run) outcome) outcome :=
          exists_congr fun _ => and_congr_right fun _ =>
            Outcome.resumed_congr fun _ hnormal => ih hnormal
      _ ↔ _ := by
          simp only [← Outcome.resumed_assoc]
          constructor
          · rintro ⟨middle, hmiddle, last, hlast, hrest⟩
            exact ⟨last, ⟨middle, hmiddle, hlast⟩, hrest⟩
          · rintro ⟨last, ⟨middle, hmiddle, hlast⟩, hrest⟩
            exact ⟨middle, hmiddle, last, hlast, hrest⟩

/-- Falling through cases is the execution of all their statements in a row. -/
theorem ends_executeCases {cases : List Case} {machine : Machine}
    (hflow : machine.control.isNormal) {outcome : Outcome RuntimeError Machine Unit} :
    Ends (fun fuel => (Plan.executeCases fuel cases).run) machine outcome ↔
      Ends (fun fuel => (Plan.executeAll fuel (cases.flatMap Case.body)).run) machine outcome := by
  induction cases generalizing machine with
  | nil =>
    rw [← ends_succ (executeCases_steady []), List.flatMap_nil, ends_executeAll_nil]
    simp only [Plan.executeCases]
    exact ends_pure
  | cons first rest ih =>
    rw [← ends_succ (executeCases_steady (first :: rest)), List.flatMap_cons,
      ends_executeAll_append hflow]
    simp only [Plan.executeCases]
    refine (ends_ifNormal (executeAll_steady first.body) (executeCases_steady rest)).trans ?_
    exact exists_congr fun _ => and_congr_right fun _ =>
      Outcome.resumed_congr fun _ hnormal => ih hnormal

/-! ### Switch statements -/

/-- The machine with one switch more around. -/
def Machine.insideSwitch (machine : Machine) : Machine :=
  { machine with
    control := { machine.control with switchDepth := machine.control.switchDepth + 1 } }

/-- How a switch ends when its bodies have ended like this: there is one switch less around
again, and a `break` has reached its goal. Any other flow goes on. -/
def Outcome.leaveSwitch : Outcome RuntimeError Machine Unit → Outcome RuntimeError Machine Unit
  | done _ machine => .done () { machine with control := { machine.control with
      switchDepth := machine.control.switchDepth - 1
      flow := if machine.control.flow = .breaking then .normal else machine.control.flow } }
  | failed error machine => .failed error { machine with control := { machine.control with
      switchDepth := machine.control.switchDepth - 1 } }
  | outOfFuel => .outOfFuel

/-- How a switch statement ends: with the statements of the case that has been chosen and of all
later ones, as a single block. -/
inductive Stmt.SwitchEnds (subject : Expr) (cases : List Case) (machine : Machine) :
    Outcome RuntimeError Machine Unit → Prop
  | failed {error : RuntimeError} {after : Machine}
      (choice : Chooses subject (cases.map Case.pattern) machine (.failed error after)) :
      SwitchEnds subject cases machine (.failed error after)
  | missing {value : Value} {after : Machine}
      (choice : Chooses subject (cases.map Case.pattern) machine (.done (value, none) after)) :
      SwitchEnds subject cases machine (.done () after)
  | bodies {value : Value} {position : Nat} {after : Machine}
      {outcome : Outcome RuntimeError Machine Unit}
      (choice : Chooses subject (cases.map Case.pattern) machine
        (.done (value, some position) after))
      (executed : (Stmt.block ((cases.drop position).flatMap Case.body)).Ends after.insideSwitch
        outcome) :
      SwitchEnds subject cases machine outcome.leaveSwitch

/-- What a switch statement does when it has chosen a case. -/
def Plan.falling (cases : List Case) (fuel : Nat) (chosen : Value × Option Nat) : Plan Unit :=
  match chosen.2 with
  | some position => do
    inSwitch (executeCases fuel (cases.drop position))
    updateControl Control.endSwitch
  | none => pure ()

theorem execute_switch (fuel : Nat) (subject : Expr) (cases : List Case) :
    execute (fuel + 1) (.switch subject cases) =
      (Plan.choosing fuel subject cases).run >>= fun chosen =>
        (Plan.falling cases fuel chosen).run := by
  unfold execute
  rw [Plan.execute.eq_def]
  change _ = (_ >>= fun value => _ >>= fun start => pure (value, _)) >>= _
  simp only [bind_assoc, pure_bind]
  refine bind_congr fun value => bind_congr fun start => ?_
  dsimp only
  generalize (start <|> cases.findIdx? fun found => found.pattern.isNone) = position
  cases position <;> rfl

theorem falling_steady (cases : List Case) (chosen : Value × Option Nat) :
    Steady fun fuel => (Plan.falling cases fuel chosen).run := by
  intro fuel more hle
  refine Plan.Below.run ?_
  unfold Plan.falling
  split
  · exact .bind (.inSwitch ((approximating hle).executeCases _)) fun _ => .refl _
  · exact .refl _

/-- The block around the bodies and the count of switches do not get in each other's way. -/
theorem inSwitch_endSwitch (action : Eval Unit) (machine : Machine) :
    (do
      Eval.inSwitch action
      Eval.updateControl Control.endSwitch : Eval Unit) machine =
      (action.inBlock machine.insideSwitch).leaveSwitch := by
  simp only [bind, Action.bind, Eval.inSwitch, Eval.inBlock, Eval.inControl,
    Eval.updateEnvironment, Eval.updateControl, Action.update, Eval.ensuring,
    Machine.insideSwitch, Control.enterSwitch]
  generalize action _ = outcome
  cases outcome with
  | done value after =>
    by_cases hbreak : after.control.flow = .breaking
    · simp [Outcome.leaveSwitch, Control.exitSwitch, Control.endSwitch, Control.setFlow, hbreak]
    · simp [Outcome.leaveSwitch, Control.exitSwitch, Control.endSwitch, hbreak]
  | failed error after => rfl
  | outOfFuel => rfl

/-- Cases in a block are executed as a single block. -/
theorem ends_executeCases_inBlock {cases : List Case} {machine : Machine}
    (hflow : machine.control.isNormal) {outcome : Outcome RuntimeError Machine Unit} :
    Ends (fun fuel => (Plan.executeCases fuel cases).run.inBlock) machine outcome ↔
      (Stmt.block (cases.flatMap Case.body)).Ends machine outcome := by
  have hblock : ∀ fuel, execute (fuel + 1) (.block (cases.flatMap Case.body)) =
      (Plan.executeAll fuel (cases.flatMap Case.body)).run.inBlock := fun _ => rfl
  unfold Stmt.Ends
  rw [← ends_succ (execute_steady _)]
  simp only [hblock]
  rw [ends_inBlock, ends_inBlock]
  have hinside : { machine with
      environment := machine.environment.push }.control.isNormal := hflow
  exact exists_congr fun _ => and_congr_left' (ends_executeCases hinside)

theorem ends_switch_statement {subject : Expr} {cases : List Case} {machine : Machine}
    (hflow : machine.control.flow = .normal) {outcome : Outcome RuntimeError Machine Unit} :
    (Stmt.switch subject cases).Ends machine outcome ↔
      Stmt.SwitchEnds subject cases machine outcome := by
  unfold Stmt.Ends
  rw [← ends_succ (execute_steady _)]
  simp only [execute_switch]
  rw [ends_bind (choosing_steady subject _) (falling_steady cases)]
  have hbodies : ∀ {value : Value} {position : Nat} {after : Machine},
      Chooses subject (cases.map Case.pattern) machine (.done (value, some position) after) →
      (Ends (fun fuel => (Plan.falling cases fuel (value, some position)).run) after outcome ↔
        ∃ inner, (Stmt.block ((cases.drop position).flatMap Case.body)).Ends after.insideSwitch
          inner ∧ outcome = inner.leaveSwitch) := by
    intro value position after hchoice
    have hnormal : after.insideSwitch.control.isNormal := by
      simp [Machine.insideSwitch, Control.isNormal, hchoice.control, hflow]
    have hrun : ∀ fuel, (Plan.falling cases fuel (value, some position)).run after =
        ((Plan.executeCases fuel (cases.drop position)).run.inBlock
          after.insideSwitch).leaveSwitch :=
      fun fuel => inSwitch_endSwitch _ after
    rw [ends_map hrun]
    · exact exists_congr fun _ => and_congr_left' (ends_executeCases_inBlock hnormal)
    · intro inner
      cases inner <;> simp [Outcome.leaveSwitch]
  constructor
  · rintro ⟨choice, hchoice, hfollowed⟩
    rw [ends_choosing] at hchoice
    cases choice with
    | done chosen after =>
      obtain ⟨value, position⟩ := chosen
      cases position with
      | some position =>
        obtain ⟨inner, hinner, rfl⟩ := (hbodies hchoice).1 hfollowed
        exact .bodies hchoice hinner
      | none =>
        cases ends_pure.1 hfollowed
        exact .missing hchoice
    | failed error after =>
      cases hfollowed
      exact .failed hchoice
    | outOfFuel => exact hfollowed.elim
  · intro h
    cases h with
    | failed choice => exact ⟨_, ends_choosing.2 choice, rfl⟩
    | missing choice => exact ⟨_, ends_choosing.2 choice, ends_pure.2 rfl⟩
    | bodies choice executed =>
      exact ⟨_, ends_choosing.2 choice, (hbodies choice).2 ⟨_, executed, rfl⟩⟩

/-! ### Both kinds of switches -/

/-- Cases of which the second is chosen and falls through to the default, which it does not
get to the end of. -/
def fallingCases : List Case :=
  [⟨some (.boolean ⟨2, 8⟩ false), [.continueStmt ⟨2, 15⟩]⟩,
    ⟨some (.boolean ⟨3, 8⟩ true), []⟩,
    ⟨none, [.expr (.assign ⟨5, 3⟩ (.name ⟨5, 3⟩ "x") none (.text ⟨5, 7⟩ "y")),
      .breakStmt ⟨6, 3⟩, .continueStmt ⟨7, 3⟩]⟩]

/-- Arms with the same patterns. -/
def fallingArms : List Arm :=
  [⟨some (.boolean ⟨2, 8⟩ false), .name ⟨2, 15⟩ "x"⟩,
    ⟨some (.boolean ⟨3, 8⟩ true), .boolean ⟨3, 14⟩ false⟩, ⟨none, .name ⟨4, 11⟩ "y"⟩]

/-- A program whose only statement, inside of its function, is a switch with these cases. -/
def fallingProgram : Program :=
  ⟨[], [⟨0, ⟨1, 1⟩, some "main", [], .switch (.boolean ⟨1, 23⟩ true) fallingCases⟩]⟩

end Betty
