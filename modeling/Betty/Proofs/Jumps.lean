import Betty.Proofs.Scope

/-!
# Jumps

The goal of a `break` or a `continue` is found by depths that the machine counts while it
runs. They agree with the text: whenever a statement is executed, the depths are the
numbers of loops and switches around it in the body of its function. So a jump fails
exactly if it has no goal there, whatever has called the function.

## Main definitions

* `Plan.Tracks`: what is watched of a computation agrees with the text.
* `Plan.Exits`: the flows that a computation can end with.

## Main results

* `Plan.Lawful.tracks`: lawful plans agree with the text.
* `execute_exits_loop`, `execute_exits_switch`: how loops and switches end.
* `jumps_lexical`: jumps are resolved by the text.
-/

namespace Betty

variable {α β : Type} {policy : Policy} {places : Position → Prop}

/-! ### Watching the statements -/

/-- The statements that the plan executes stand at their places, and the plan fails because of
a jump if and only if one of them is a jump without a goal. -/
structure Plan.Tracks (plan : Plan α) (place : Option Place) (machine : Machine) : Prop where
  lexical : ∀ event ∈ plan.watch place machine, event.Lexical
  stray : ∀ word, (plan.run machine).jump? = some word ↔
    ∃ event ∈ plan.watch place machine, event.stray? = some word

/-- What a plan may start with. A statement has to be at its place, with the depths of the
place that is counted. -/
def Mode.Starts : Mode → Option Place → Machine → Prop
  | calm, _, _ => True
  | inside counted here, place, machine => place = some here ∧ counted.Fits machine

theorem Mode.Starts.of_control_eq {mode : Mode} {place : Option Place} {machine after : Machine}
    (h : mode.Starts place machine) (heq : after.control = machine.control) :
    mode.Starts place after := by
  cases mode with
  | calm => trivial
  | inside counted here => exact ⟨h.1, h.2.of_control_eq heq⟩

/-- An outcome whose error is no jump. -/
theorem Outcome.jump?_eq_none {outcome : Outcome RuntimeError Machine α}
    (h : outcome.Meets (fun _ _ => True) (fun error _ => error.fault.jump? = none) True) :
    outcome.jump? = none := by
  cases outcome with
  | failed error after => exact h
  | _ => rfl

@[simp]
theorem Outcome.jump?_mapState (change : Machine → Machine)
    (outcome : Outcome RuntimeError Machine α) :
    (outcome.mapState change).jump? = outcome.jump? := by
  cases outcome <;> rfl

@[simp]
theorem Outcome.jump?_locate (position : Position) (outcome : Outcome RuntimeError Machine α) :
    (outcome.mapError fun error => error.locate position).jump? = outcome.jump? := by
  cases outcome with
  | failed error after => exact congrArg Fault.jump? (error.fault_locate position)
  | _ => rfl

theorem Eval.jump?_onConsole {action : Action Fault Console α}
    (h : ∀ console, (action console).Meets (fun _ _ => True) (fun fault _ => fault.isOrdinary) True)
    (machine : Machine) : (Eval.onConsole action machine).jump? = none :=
  Outcome.jump?_eq_none (Eval.meets_onConsole.2 ((h machine.console).imp (fun _ _ _ => trivial)
    (fun _ _ hfault => Fault.jump?_of_isOrdinary hfault) id))

namespace Plan.Tracks

variable {plan : Plan α} {place : Option Place} {machine : Machine}

/-- A plan that executes no statement and makes no jump. -/
theorem still (hwatch : plan.watch place machine = [])
    (hjump : (plan.run machine).jump? = none) : plan.Tracks place machine := by
  refine ⟨fun event hevent => ?_, fun word => ?_⟩
  · rw [hwatch] at hevent
    cases hevent
  · simp [hwatch, hjump]

/-- A single step that makes no jump. -/
theorem step (hstep : plan.isStep) (hjump : (plan.run machine).jump? = none) :
    plan.Tracks place machine :=
  still (record_of_isStep _ hstep place machine) hjump

/-- A plan and another one around it that executes the same statements. -/
theorem congr {outer : Plan β} {outerPlace : Option Place} {outerMachine : Machine}
    (h : plan.Tracks place machine)
    (hwatch : outer.watch outerPlace outerMachine = plan.watch place machine)
    (hjump : (outer.run outerMachine).jump? = (plan.run machine).jump?) :
    outer.Tracks outerPlace outerMachine := by
  refine ⟨fun event hevent => h.lexical event (hwatch ▸ hevent), fun word => ?_⟩
  rw [hjump, hwatch]
  exact h.stray word

theorem andThen {second : α → Plan β} (h : plan.Tracks place machine)
    (h' : ∀ value middle, plan.run machine = .done value middle →
      (second value).Tracks place middle) : (plan.andThen second).Tracks place machine := by
  have hmem : ∀ event, event ∈ (plan.andThen second).watch place machine ↔
      event ∈ plan.watch place machine ∨ ∃ value middle, plan.run machine = .done value middle ∧
        event ∈ (second value).watch place middle := fun event => mem_record_andThen
  refine ⟨fun event hevent => ?_, fun word => ?_⟩
  · rcases (hmem event).1 hevent with hevent | ⟨value, middle, hran, hevent⟩
    · exact h.lexical event hevent
    · exact (h' value middle hran).lexical event hevent
  · have hfirst := h.stray word
    simp only [hmem]
    rw [run_andThen]
    cases hran : plan.run machine with
    | done value middle =>
      -- The first part did not fail, so it made no jump without a goal.
      have hnone : ¬ ∃ event ∈ plan.watch place machine, event.stray? = some word := by
        rw [← hfirst, hran]
        simp [Outcome.jump?]
      refine ((h' value middle hran).stray word).trans ⟨?_, ?_⟩
      · rintro ⟨event, hevent, hstray⟩
        exact ⟨event, .inr ⟨value, middle, rfl, hevent⟩, hstray⟩
      · rintro ⟨event, hevent | ⟨_, _, ⟨⟩, hevent⟩, hstray⟩
        · exact absurd ⟨event, hevent, hstray⟩ hnone
        · exact ⟨event, hevent, hstray⟩
    | failed error after =>
      rw [hran] at hfirst
      simp only [reduceCtorEq, false_and, exists_false, or_false]
      exact hfirst
    | outOfFuel =>
      rw [hran] at hfirst
      simp only [reduceCtorEq, false_and, exists_false, or_false]
      exact hfirst

/-- A statement that is no jump. -/
theorem statement {here : Place} {statement : Stmt} (hplace : here.Holds statement)
    (hfits : here.Fits machine) (hjump : statement.isJump = false)
    (h : plan.Tracks (some (here.within statement)) machine) :
    (Plan.within (.statement statement) plan).Tracks (some here) machine := by
  have hwatch : (Plan.within (.statement statement) plan).watch (some here) machine =
      ⟨here, statement, machine⟩ :: plan.watch (some (here.within statement)) machine := by
    simp [watch, record, Recorder.statements]
  refine ⟨fun event hevent => ?_, fun word => ?_⟩
  · rw [hwatch] at hevent
    rcases List.mem_cons.1 hevent with rfl | hevent
    · exact ⟨hplace, hfits⟩
    · exact h.lexical event hevent
  · have hnone : Event.stray? ⟨here, statement, machine⟩ = none := Event.stray?_eq_none hjump
    refine (h.stray word).trans ?_
    simp [hwatch, hnone]

/-- A jump fails if it has no goal in the text. -/
theorem jump {here : Place} {statement : Stmt} {hasGoal : Control → Bool} {flow : Flow}
    {word : Keyword} {position : Position} (hplace : here.Holds statement)
    (hfits : here.Fits machine)
    (hgoal : Event.stray? ⟨here, statement, machine⟩ =
      if hasGoal machine.control then none else some word) :
    (Plan.within (.statement statement)
      (.jump hasGoal flow ⟨.strayJump word, position⟩)).Tracks (some here) machine := by
  have hwatch : (Plan.within (.statement statement)
      (.jump hasGoal flow ⟨.strayJump word, position⟩)).watch (some here) machine =
      [⟨here, statement, machine⟩] := by
    change [_] ++ ([] ++ Plan.record _ (if hasGoal machine.control then _ else _) _ _) ++ [] = _
    split <;> rfl
  have hran : ((Plan.within (.statement statement)
      (.jump hasGoal flow ⟨.strayJump word, position⟩)).run machine).jump? =
      if hasGoal machine.control then none else some word := by
    change (Plan.run (if hasGoal machine.control then _ else _) machine).jump? = _
    split <;> rfl
  refine ⟨fun event hevent => ?_, fun found => ?_⟩
  · rw [hwatch] at hevent
    cases List.mem_singleton.1 hevent
    exact ⟨hplace, hfits⟩
  · rw [hwatch, hran]
    simp [hgoal]

/-- What follows a check of the flow. -/
theorem check {goes : α → Prop} {action : Eval α} {second : α → Plan β} {made : β → Prop}
    (h : action.Checks goes)
    (hgoes : ∀ value change, goes value → machine.control.Passes (change machine.control) →
      (change machine.control).flow = .normal →
      (second value).Tracks place (machine.turn change))
    (hstops : ∀ value, ¬ goes value → ∃ result, (second value).idle? = some result ∧
      made result) :
    ((perform action).andThen second).Tracks place machine := by
  obtain ⟨value, change, hran, hpasses, hnormal⟩ := h.turns machine
  refine andThen (step rfl ?_) fun found middle hfound => ?_
  · change (action machine).jump? = none
    rw [hran]
    rfl
  · cases hran.symm.trans hfound
    by_cases hgo : goes value
    · exact hgoes value change hgo hpasses (hnormal hgo)
    · obtain ⟨result, hidle, _⟩ := hstops value hgo
      refine still (record_of_idle _ hidle place _) ?_
      rw [run_of_idle hidle]
      rfl

end Plan.Tracks

/-- The mode inside a statement that stands at its place. -/
theorem Place.Fits.starts_enter {place : Place} {machine : Machine} (h : place.Fits machine)
    (statement : Stmt) :
    (place.enter statement).Starts (some (place.within statement)) machine := by
  unfold Place.enter
  split
  · exact ⟨rfl, h⟩
  · next hneither =>
    rw [Bool.or_eq_true, not_or, Bool.not_eq_true, Bool.not_eq_true] at hneither
    exact ⟨rfl, h.inside hneither.1 hneither.2⟩

/-- Lawful plans agree with the text. -/
theorem Plan.Lawful.tracks {mode : Mode} {made : α → Prop} {plan : Plan α}
    (h : plan.Lawful policy places mode made) :
    ∀ {place : Option Place} {machine : Machine}, policy.Holds machine →
      mode.Starts place machine → plan.Tracks place machine := by
  induction h with
  | yield => exact fun _ _ => .still rfl rfl
  | andThen hfirst _ ihfirst ihsecond =>
    intro place machine hm hstarts
    refine (ihfirst hm trivial).andThen fun value middle hran => ?_
    have hmiddle := hfirst.sound machine hm
    rw [hran] at hmiddle
    exact ihsecond value hmiddle.1 hmiddle.2.1.toHolds (hstarts.of_control_eq hmiddle.2.2)
  | leaf h =>
    intro place machine hm _
    refine .step h.isStep (Outcome.jump?_eq_none ?_)
    exact (h.keeps machine hm).imp (fun _ _ _ => trivial) (fun _ _ hfailed => hfailed.1.jump) id
  | write text => exact fun _ _ => .step rfl (Eval.jump?_onConsole (Console.write_fault text) _)
  | readLine => exact fun _ _ => .step rfl (Eval.jump?_onConsole Console.readLine_fault _)
  | @expr _ _ _ _ plan _ _ ih =>
    intro place machine hm _
    have hplan : plan.Tracks place machine := ih hm trivial
    refine hplan.congr ?_ ?_
    · cases place <;> simp [watch, record, Recorder.statements]
    · rw [Plan.run, run_located, Outcome.jump?_locate]
  | statement _ hplace hjump _ ih =>
    rintro _ machine hm ⟨rfl, hfits⟩
    exact .statement hplace hfits hjump (ih hm (hfits.starts_enter _))
  | jump _ hplace _ hgoal =>
    rintro _ machine hm ⟨rfl, hfits⟩
    exact .jump hplace hfits (hgoal machine hfits)
  | holding _ _ ih => exact fun hm hstarts => (ih hm hstarts).congr rfl rfl
  | owning _ _ ih => exact fun hm hstarts => (ih hm hstarts).congr rfl rfl
  | inBlock _ ih =>
    intro place machine hm hstarts
    refine (ih hm.enterBlock (hstarts.of_control_eq rfl)).congr ?_ ?_
    · exact Recorder.bracket_eq (fun _ _ _ => rfl) _ _ _ _ _ _
    · rw [run_inBlock, Outcome.jump?_mapState]
  | @inControl _ _ _ _ _ enter exit _ hbracket hfits _ ih =>
    rintro _ machine hm ⟨rfl, hcounted⟩
    have henter : policy.Holds (machine.turn enter) :=
      hm.turn ((hbracket.enter_returned _).symm ▸ hm.returned)
    refine (ih henter ⟨rfl, hfits machine hcounted⟩).congr ?_ ?_
    · exact Recorder.bracket_eq (fun _ _ _ => rfl) _ _ _ _ _ _
    · rw [run_inControl, Outcome.jump?_mapState]
  | @inCall _ _ closure arguments body hclosure harguments _ ih =>
    intro place machine hm _
    have hbody := ih (hm.inBody hclosure harguments) ⟨rfl, .initial closure.declaration rfl⟩
    have hlook : ∀ machine, (Plan.look fun machine => machine.control.result).Tracks
        (some (.start closure.declaration)) machine := fun _ => .step rfl rfl
    refine (hbody.andThen fun _ middle _ => hlook middle).congr ?_ ?_
    · exact Recorder.bracket_eq (fun _ _ _ => rfl) _ _ _ _ _ _
    · rw [run_inCall, Outcome.jump?_mapState]
  | afterwards hfirst hchecks _ hstops ihfirst ihgoes =>
    rintro _ machine hm ⟨rfl, hfits⟩
    refine (ihfirst hm ⟨rfl, hfits⟩).andThen fun _ middle hran => ?_
    have hmiddle := hfirst.sound machine hm
    rw [hran] at hmiddle
    have hsettled : machine.control.Settled middle.control := hmiddle.2.2 hfits.flow
    refine .check hchecks
      (fun value change hgo hpasses hflow => ihgoes value hgo ?_ ⟨rfl, ?_⟩) hstops
    · exact hmiddle.2.1.toHolds.turn (hpasses.returned.symm ▸ hmiddle.2.1.returned)
    · exact hfits.settled (hsettled.toSameDepths.trans hpasses.toSameDepths) hflow
  | endSwitch _ ih => exact fun hm hstarts => (ih hm hstarts).andThen fun _ _ _ => .step rfl rfl
  | setReturn => exact fun _ _ => .step rfl rfl
  | calm _ ih => exact fun hm _ => ih hm trivial

/-! ### How statements end -/

/-- Started in a normal flow, the plan can end with these flows only. -/
def Plan.Exits (allowed : Flow → Prop) (plan : Plan α) : Prop :=
  ∀ machine, machine.control.flow = .normal →
    (plan.run machine).Meets (fun _ after => allowed after.control.flow) (fun _ _ => True) True

namespace Plan.Exits

variable {allowed : Flow → Prop} {made : α → Prop} {plan : Plan α}

theorem exhausted : (Plan.exhausted : Plan α).Exits allowed :=
  fun _ _ => trivial

theorem pure (hnormal : allowed .normal) (value : α) :
    Plan.Exits allowed (Pure.pure value : Plan α) := by
  intro machine hflow
  change allowed machine.control.flow
  rw [hflow]
  exact hnormal

/-- An expression may come before a statement. -/
theorem bind {second : α → Plan β} (h : plan.Lawful (.only .any) (fun _ => True) .calm made)
    (h' : ∀ value, (second value).Exits allowed) : Plan.Exits allowed (plan >>= second) := by
  intro machine hflow
  refine (Action.meets_bind _ _ _).2 ?_
  refine (h.sameContext (Policy.holds_any machine)).imp ?_ (fun _ _ _ => trivial) id
  exact fun value middle hsame => h' value middle (hsame.control ▸ hflow)

theorem ite {condition : Prop} [Decidable condition] {yes no : Plan α} (hyes : yes.Exits allowed)
    (hno : no.Exits allowed) : Plan.Exits allowed (if condition then yes else no) := by
  split
  · exact hyes
  · exact hno

theorem inLoop (h : plan.Exits allowed) : plan.inLoop.Exits allowed := by
  intro machine hflow
  rw [Plan.inLoop, run_inBlock, run_inControl, Outcome.meets_mapState, Outcome.meets_mapState]
  exact (h (machine.enterBlock.turn Control.enterLoop) hflow).imp (fun _ _ h => h)
    (fun _ _ _ => trivial) id

end Plan.Exits

/-- The flows that a loop can end with. -/
def Flow.leavesLoop (flow : Flow) : Prop :=
  flow = .normal ∨ flow = .returning

/-- The flows that a switch can end with. -/
def Flow.leavesSwitch (flow : Flow) : Prop :=
  flow = .normal ∨ flow = .continuing ∨ flow = .returning

theorem Control.endIteration_leavesLoop (control : Control) :
    control.endIteration.flow.leavesLoop := by
  cases hflow : control.flow <;> simp [endIteration, hflow, setFlow, Flow.leavesLoop]

theorem Control.endSwitch_leavesSwitch (control : Control) :
    control.endSwitch.flow.leavesSwitch := by
  cases hflow : control.flow <;> simp [endSwitch, hflow, setFlow, Flow.leavesSwitch]

/-- Whatever a round does, the loop ends its flow. -/
theorem Plan.Exits.round {body rest stop : Plan Unit} (h : rest.Exits Flow.leavesLoop)
    (hstop : stop.idle? = some ()) :
    Plan.Exits Flow.leavesLoop (do
      body
      if ← Plan.perform Eval.endIteration then stop else rest) := by
  intro machine _
  refine (Action.meets_bind _ _ _).2 (.of_forall _ ?_ (fun _ _ => trivial) trivial)
  intro _ middle
  refine (Action.meets_bind _ _ _).2 ?_
  change (Plan.run (if middle.control.stopsLoop then stop else rest)
    (middle.turn Control.endIteration)).Meets _ _ _
  split
  · rw [Plan.run_of_idle hstop]
    exact middle.control.endIteration_leavesLoop
  · next hgoes => exact h _ (Control.endIteration_normal (Bool.eq_false_iff.2 hgoes))

theorem whileRounds_exits (fuel : Nat) (condition : Expr) (body : Stmt) :
    (Plan.whileRounds fuel condition body).Exits Flow.leavesLoop := by
  induction fuel with
  | zero => exact .exhausted
  | succ fuel ih =>
    rw [Plan.whileRounds]
    exact .bind (Plan.test_lawful fuel condition) fun _ =>
      .ite (.round ih rfl) (.pure (.inl rfl) _)

theorem doRounds_exits (fuel : Nat) (body : Stmt) (condition : Expr) :
    (Plan.doRounds fuel body condition).Exits Flow.leavesLoop := by
  induction fuel with
  | zero => exact .exhausted
  | succ fuel ih =>
    rw [Plan.doRounds]
    refine .round (.bind (Plan.test_lawful fuel condition) fun _ => ?_) rfl
    exact .ite ih (.pure (.inl rfl) _)

theorem forRounds_exits (fuel : Nat) (condition step : Option Expr) (body : Stmt) :
    (Plan.forRounds fuel condition step body).Exits Flow.leavesLoop := by
  induction fuel with
  | zero => exact .exhausted
  | succ fuel ih =>
    rw [Plan.forRounds]
    refine .bind (Plan.testOptional_lawful fuel condition) fun _ =>
      .ite (.round ?_ rfl) (.pure (.inl rfl) _)
    exact .bind (Plan.evaluateOptional_lawful fuel step) fun _ => ih

theorem foreachRounds_exits (fuel : Nat) (element : String) (items : List Value) (body : Stmt) :
    (Plan.foreachRounds fuel element items body).Exits Flow.leavesLoop := by
  induction fuel generalizing items with
  | zero => exact .exhausted
  | succ fuel ih =>
    cases items with
    | nil =>
      rw [Plan.foreachRounds]
      exact .pure (.inl rfl) _
    | cons item rest =>
      have hassign : (Plan.holding [item] (.assign element item)).Lawful (.only .any)
          (fun _ => True) .calm fun _ => True :=
        .holding _ (.leaf (.assign element item.only_any))
      rw [Plan.foreachRounds]
      exact .bind hassign fun _ => .round (ih rest) rfl

/-- A loop takes the breaks and continues of its body for itself. -/
theorem execute_exits_loop (fuel : Nat) {statement : Stmt} (h : statement.isLoop) :
    (Plan.execute fuel statement).Exits Flow.leavesLoop := by
  cases fuel with
  | zero => exact .exhausted
  | succ fuel =>
    rw [Plan.execute.eq_def]
    cases statement with
    | whileLoop condition body =>
      exact Plan.Exits.inLoop (whileRounds_exits fuel condition body)
    | doWhileLoop body condition => exact Plan.Exits.inLoop (doRounds_exits fuel body condition)
    | forLoop start condition step body =>
      exact Plan.Exits.inLoop (.bind (Plan.evaluateOptional_lawful fuel start) fun _ =>
        forRounds_exits fuel condition step body)
    | foreachLoop element iterable body =>
      have hlook : ∀ collection, (Plan.fetch (fun machine =>
          .ok (machine.heap.elements? collection)) fun items => items.getD []).Lawful
            (.only .any) (fun _ => True) .calm fun _ => True :=
        fun _ => .leaf (.fetchOk (fun _ _ => trivial) fun _ _ => rfl)
      refine Plan.Exits.bind (Plan.evaluate_lawful fuel iterable) fun collection =>
        Plan.Exits.bind (hlook collection) fun items => ?_
      cases items with
      | none => exact fun _ _ => trivial
      | some items => exact .inLoop (foreachRounds_exits fuel element items body)
    | _ => cases h

/-- A switch takes the breaks of its cases for itself. -/
theorem execute_exits_switch (fuel : Nat) {statement : Stmt} (h : statement.isSwitch) :
    (Plan.execute fuel statement).Exits Flow.leavesSwitch := by
  cases fuel with
  | zero => exact .exhausted
  | succ fuel =>
    rw [Plan.execute.eq_def]
    cases statement with
    | switch subject cases =>
      refine Plan.Exits.bind (Plan.evaluate_lawful fuel subject) fun value =>
        Plan.Exits.bind (Plan.equalCase_lawful fuel value cases 0) fun start => ?_
      split
      · intro machine _
        refine (Action.meets_bind _ _ _).2 (.of_forall _ ?_ (fun _ _ => trivial) trivial)
        exact fun _ middle => middle.control.endSwitch_leavesSwitch
      · exact .pure (.inl rfl) _
    | _ => cases h

/-! ### The resolution of jumps -/

/-- Jumps are resolved by the text.

* Watching a request shows what it does. Whenever a statement is executed, it stands in the
  body of its function inside of the statements that have been noted, the flow is normal,
  and the depths are the numbers of loops and switches among those statements.
* A request fails because of a jump if and only if it has executed a `break` with no loop
  and no switch around it, or a `continue` with no loop around it, in the body of its
  function.
* A loop ends normally or returning. A switch ends normally, continuing or returning. -/
theorem jumps_lexical :
    (∀ (request : Request) (fuel : Nat) (machine : Machine),
      (request.plan fuel).run = request.action fuel ∧
      (∀ event ∈ (request.plan fuel).watch none machine,
        event.place.function.body.Occurs event.place.around event.statement ∧
        event.machine.control.flow = .normal ∧
        event.machine.control.loopDepth = event.place.around.countP Stmt.isLoop ∧
        event.machine.control.switchDepth = event.place.around.countP Stmt.isSwitch) ∧
      ∀ word, (request.action fuel machine).jump? = some word ↔
        ∃ event ∈ (request.plan fuel).watch none machine, event.stray? = some word) ∧
    (∀ (fuel : Nat) (statement : Stmt) (machine after : Machine),
      machine.control.flow = .normal → execute fuel statement machine = .done () after →
      (statement.isLoop → after.control.flow = .normal ∨ after.control.flow = .returning) ∧
      (statement.isSwitch → after.control.flow = .normal ∨ after.control.flow = .continuing ∨
        after.control.flow = .returning)) := by
  refine ⟨fun request fuel machine => ?_, fun fuel statement machine after hflow hdone => ?_⟩
  · obtain ⟨_, hlawful⟩ := request.plan_lawful_any fuel
    have htracks : (request.plan fuel).Tracks none machine :=
      hlawful.tracks (Policy.holds_any machine) trivial
    refine ⟨request.run_plan fuel, fun event hevent => ?_, request.run_plan fuel ▸ htracks.stray⟩
    obtain ⟨hholds, hfits⟩ := htracks.lexical event hevent
    exact ⟨hholds, hfits.flow, hfits.loopDepth, hfits.switchDepth⟩
  · change (Plan.execute fuel statement).run machine = _ at hdone
    refine ⟨fun hloop => ?_, fun hswitch => ?_⟩
    · have hexits := execute_exits_loop fuel hloop machine hflow
      rw [hdone] at hexits
      exact hexits
    · have hexits := execute_exits_switch fuel hswitch machine hflow
      rw [hdone] at hexits
      exact hexits

/-- A program that calls, from a loop in a switch, a function with a `break` and no loop. -/
def Program.strayInCall : Program :=
  ⟨[], [⟨0, ⟨1, 1⟩, some "leave", [], .block [.breakStmt ⟨1, 16⟩]⟩,
    ⟨0, ⟨2, 1⟩, some "main", [],
      .block [.switch (.boolean ⟨3, 11⟩ true) [⟨none,
        [.whileLoop (.boolean ⟨4, 9⟩ true) (.expr (.call ⟨5, 5⟩ (.named "leave") []))]⟩]]⟩]⟩

theorem jumps_lexical_strayInCall :
    ((Program.strayInCall.run 20 (.initial (.ofInput []))).jump? = some .breakWord ∧
      ∃ event ∈ (Program.strayInCall.plan 20).watch none (.initial (.ofInput [])),
        event.stray? = some .breakWord) ∧
    ∃ after, execute 5 (.whileLoop (.boolean ⟨1, 8⟩ true) (.breakStmt ⟨1, 14⟩))
        (.initial (.ofInput [])) = .done () after ∧
      (after.control.flow = .normal ∨ after.control.flow = .returning) := by
  obtain ⟨_, _, hstray⟩ :=
    jumps_lexical.1 (.run Program.strayInCall) 20 (.initial (.ofInput []))
  refine ⟨⟨rfl, (hstray .breakWord).1 rfl⟩, _, rfl, ?_⟩
  exact (jumps_lexical.2 5 (.whileLoop (.boolean ⟨1, 8⟩ true) (.breakStmt ⟨1, 14⟩))
    (.initial (.ofInput [])) _ rfl rfl).1 rfl

end Betty
