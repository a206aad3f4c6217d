import Betty.Proofs.Handles
import Betty.Proofs.Streams

/-!
# Plans on the store

Running a plan on the store keeps count of the handles, and apart from that it does what the
plan does to the machine. So what is true of the machine after a run is true of it after a run
on the store, unless the run crashes. A run that crashes has been cut off: what it has read and
written is a beginning of what the plan reads and writes.

## Main definitions

* `Store.Follows`: a computation on the store does what another one does to the machine.
* `Store.Silent`: a computation on the store that does nothing to the machine.
* `Plan.CutOff`: what a plan has read and written so far is a beginning of what it does.
* `Plan.Tracked`: running the plan on the store does what the plan does, or is cut off.

## Main results

* `Plan.Lawful.tracked`: this is so for lawful plans.
* `Program.onStore_follows`, `Program.onStore_accounts`: and so for the runs of programs.
-/

namespace Betty

variable {α β : Type}

namespace Store

/-- The computation on the store yields the value or fails with the error of the computation on
the machine, and leaves the same machine. If it crashes, `cut` holds of the machine then. -/
def Follows (work : Work α) (action : Eval α) (cut : Machine → Prop) (store : Store) : Prop :=
  (work store).Meets (fun value after => action store.machine = .done value after.machine)
    (fun stop after => match stop with
      | .error error => action store.machine = .failed error after.machine
      | .crash => cut after.machine) True

/-- The computation changes the machine in this way, and it does not fail. -/
def Does (change : Machine → Machine) (work : Work α) : Prop :=
  ∀ store, (work store).Meets (fun _ after => after.machine = change store.machine)
    (fun _ _ => False) True

/-- The computation does nothing to the machine, and it does not fail. -/
abbrev Silent (work : Work α) : Prop :=
  Does id work

variable {work : Work α} {action : Eval α} {cut cut' : Machine → Prop} {store : Store}

/-! ### Computations that do not fail -/

theorem does_update (change : Machine → Machine) : Does change (perform (Action.update change)) :=
  fun _ => rfl

theorem Does.bind {first : Work α} {second : α → Work β} {change change' : Machine → Machine}
    (h : Does change first) (h' : ∀ value, Does change' (second value)) :
    Does (change' ∘ change) (first >>= second) := by
  intro store
  rw [Action.meets_bind]
  refine (h store).imp (fun value middle hmiddle => ?_) (fun _ _ => id) id
  have hsecond := h' value middle
  rwa [hmiddle] at hsecond

theorem silent_look (view : Machine → α) : Silent (look view) :=
  fun _ => rfl

theorem silent_updateHandles (change : Machine → Handles → Handles) :
    Silent (updateHandles change) :=
  fun _ => rfl

theorem silent_keep (values : List Value) : Silent (keep values) :=
  silent_updateHandles _

/-- As long as no frame is lent out, handles can be given up. -/
theorem silent_giveUp (fuel : Nat) (losses : List Loss) : Silent (giveUp fuel none losses) := by
  intro store
  rw [giveUp_eq, Outcome.meets_mapError, Outcome.meets_mapState]
  refine (Handles.giveUp_meets store.machine none fuel losses store.handles).imp
    (fun _ _ _ => rfl) (fun _ _ h => ?_) id
  obtain ⟨frame, hnone, _⟩ := h
  cases hnone

theorem silent_drop (fuel : Nat) (values : List Value) : Silent (drop fuel values) :=
  silent_giveUp fuel _

/-! ### Following -/

theorem Follows.imp (h : Follows work action cut store) (hcut : ∀ after, cut after → cut' after) :
    Follows work action cut' store := by
  refine Outcome.Meets.imp h (fun _ _ hdone => hdone) (fun stop after hfailed => ?_) id
  cases stop with
  | error error => exact hfailed
  | crash => exact hcut after.machine hfailed

theorem follows_pure (value : α) : Follows (pure value) (pure value) cut store :=
  rfl

theorem follows_perform (action : Eval α) : Follows (perform action) action cut store := by
  unfold Follows perform
  dsimp only
  cases action store.machine <;> trivial

/-- One computation after another. -/
theorem Follows.bind {second : α → Work β} {next : α → Eval β} (h : Follows work action cut store)
    (h' : ∀ value middle, action store.machine = .done value middle.machine →
      Follows (second value) (next value) cut middle) :
    Follows (work >>= second) (action >>= next) cut store := by
  unfold Follows
  rw [Action.meets_bind]
  refine Outcome.Meets.imp h (fun value middle hdone => ?_) (fun stop after hfailed => ?_) id
  · have hrun : (action >>= next) store.machine = next value middle.machine := by
      change Action.bind action next store.machine = _
      unfold Action.bind
      rw [hdone]
    rw [hrun]
    exact h' value middle hdone
  · cases stop with
    | error error =>
      change Action.bind action next store.machine = _
      unfold Action.bind
      rw [hfailed]
    | crash => exact hfailed

/-- What follows does nothing more to the machine. -/
theorem Follows.seq {next : α → Work α} (h : Follows work action cut store)
    (h' : ∀ value middle, Follows (next value) (pure value) cut middle) :
    Follows (work >>= next) action cut store := by
  have hboth := h.bind fun value middle _ => h' value middle
  rwa [bind_pure] at hboth

/-- What comes before does nothing to the machine. -/
theorem Silent.follows {first : Work β} {second : β → Work α} (h : Silent first)
    (h' : ∀ value handles, Follows (second value) action cut ⟨store.machine, handles⟩) :
    Follows (first >>= second) action cut store := by
  unfold Follows
  rw [Action.meets_bind]
  refine (h store).imp (fun value middle hsame => ?_) (fun _ _ => False.elim) id
  obtain ⟨machine, handles⟩ := middle
  cases hsame
  exact h' value handles

theorem Silent.follows_unit {work : Work Unit} (h : Silent work) :
    Follows work (pure ()) cut store :=
  (h store).imp (fun _ _ hsame => congrArg (Outcome.done ()) hsame.symm)
    (fun _ _ => False.elim) id

/-- A computation, and a change of the machine that follows it however it ends. -/
theorem Follows.followed {next : Work Unit} {change : Machine → Machine}
    (h : Follows work action cut store) (hnext : Does change next) :
    Follows (Store.followed work next) (action.ensuring change) cut store := by
  unfold Follows at h
  unfold Follows Store.followed Eval.ensuring
  cases hran : work store with
  | done value after =>
    rw [hran] at h
    have hdone : action store.machine = .done value after.machine := h
    dsimp only
    rw [hdone, Action.meets_bind]
    exact (hnext after).imp (fun _ _ hsame => congrArg (Outcome.done value) hsame.symm)
      (fun _ _ => False.elim) id
  | failed stop after =>
    rw [hran] at h
    cases stop with
    | error error =>
      have hfailed : action store.machine = .failed error after.machine := h
      dsimp only
      rw [hfailed, Action.meets_bind]
      exact (hnext after).imp (fun _ _ hsame => congrArg (Outcome.failed error) hsame.symm)
        (fun _ _ => False.elim) id
    | crash => exact h
  | outOfFuel => trivial

/-- Values that are held during a computation. -/
theorem Follows.held {next : Work Unit} (h : Follows work action cut store) (hnext : Silent next) :
    Follows (Store.followed work next) action cut store := by
  have hid : action.ensuring id = action := by
    funext machine
    unfold Eval.ensuring
    cases action machine <;> rfl
  exact hid ▸ h.followed hnext

/-- Values that are given up if the computation fails. -/
theorem Follows.ifFailed {next : Work Unit} (h : Follows work action cut store)
    (hnext : Silent next) : Follows (Store.ifFailed work next) action cut store := by
  unfold Follows at h
  unfold Follows Store.ifFailed
  cases hran : work store with
  | failed stop after =>
    rw [hran] at h
    cases stop with
    | error error =>
      have hfailed : action store.machine = .failed error after.machine := h
      dsimp only
      rw [hfailed, Action.meets_bind]
      exact (hnext after).imp (fun _ _ hsame => congrArg (Outcome.failed error) hsame.symm)
        (fun _ _ => False.elim) id
    | crash => exact h
  | done value after =>
    rw [hran] at h
    exact h
  | outOfFuel => trivial

/-- A computation whose errors are placed. -/
theorem Follows.located (h : Follows work action cut store) (position : Position) :
    Follows (fun store => match work store with
      | .failed (.error error) store => .failed (.error (error.locate position)) store
      | ended => ended) (action.located position) cut store := by
  unfold Follows at h
  unfold Follows Eval.located
  dsimp only
  cases hran : work store with
  | done value after =>
    rw [hran] at h
    have hdone : action store.machine = .done value after.machine := h
    rw [hdone]
    rfl
  | failed stop after =>
    rw [hran] at h
    cases stop with
    | error error =>
      have hfailed : action store.machine = .failed error after.machine := h
      rw [hfailed]
      rfl
    | crash => exact h
  | outOfFuel => trivial

/-! ### Changes of bindings -/

/-- A change of a binding changes the environment. If it crashes, it has done so before. -/
theorem follows_rebind (fuel : Nat) (replaced : Environment → Option FrameRef × Option Value)
    (change : Environment → Environment) (value : Value) :
    Follows (rebind fuel replaced change value) (Eval.updateEnvironment change)
      (fun after => after.console = store.machine.console) store := by
  unfold Follows
  rw [rebind_eq, giveUp_eq, Outcome.meets_mapError, Outcome.meets_mapState]
  exact .of_forall _ (fun _ _ => rfl) (fun _ _ => rfl) trivial

/-! ### Blocks and calls -/

/-- A computation in a block of its own. -/
theorem follows_inBlock (fuel : Nat)
    (h : ∀ handles, Follows work action cut ⟨store.machine.enterBlock, handles⟩) :
    Follows (Store.inBlock fuel work) action.inBlock cut store := by
  have hleave : Does Machine.leaveBlock (do
      let chain ← look fun machine => machine.environment.chain
      perform (Eval.updateEnvironment Environment.pop)
      giveUp fuel none (chain.head?.toList.map .scope)) :=
    (silent_look _).bind fun _ => (does_update _).bind fun _ => silent_giveUp fuel _
  exact (h (store.handles.newFrame)).followed hleave

/-- A computation in the body of a function. -/
theorem follows_inCall (fuel : Nat) (closure : Closure) (arguments : List Value)
    (h : ∀ handles, Follows work action cut ⟨store.machine.inBody closure arguments, handles⟩) :
    Follows (Store.inCall fuel closure arguments work) (action.inCall closure arguments) cut
      store := by
  let caller := (store.machine.environment.chain, store.machine.control)
  have hleaveCall : Does store.machine.leaveBody (leaveCall caller) := fun _ => rfl
  have hleave : Does store.machine.leaveBody (do
      let callee ← leaveCall caller
      giveUp fuel none (callee.map .scope)) :=
    hleaveCall.bind fun _ => silent_giveUp fuel _
  have hinside : Follows (do
      drop fuel (shadowed (closure.declaration.parameters.zip arguments))
      Store.followed work do
        let callee ← leaveCall caller
        giveUp fuel none (callee.map .scope)) (action.ensuring store.machine.leaveBody) cut
      ⟨store.machine.inBody closure arguments,
        (store.handles.keepFrames closure.chain).newFrame⟩ :=
    (silent_drop fuel _).follows fun _ handles => (h handles).followed hleave
  exact hinside

end Store

namespace Plan

open Store

variable {fuel : Nat} {store : Store} {cut : Machine → Prop}

/-! ### Plans -/

/-- A step. If it crashes, it has left the streams alone. -/
theorem follows_step {plan : Plan α} (h : plan.isStep) :
    Follows (plan.onStore fuel) plan.run (fun after => after.console = store.machine.console)
      store := by
  induction plan with
  | perform action => exact follows_perform action
  | read name view =>
    exact (follows_perform _).seq fun value middle =>
      (silent_keep [value]).follows fun _ _ => follows_pure value
  | fetch view held =>
    exact (follows_perform _).seq fun found middle =>
      (silent_keep (held found)).follows fun _ _ => follows_pure found
  | onHeap changed action =>
    refine (silent_look _).follows fun old _ => (follows_perform _).seq fun value middle => ?_
    exact (silent_updateHandles _).follows fun _ _ =>
      (silent_drop fuel old).follows fun _ _ => follows_pure value
  | setElement ref position value =>
    refine (silent_look _).follows fun old _ => (follows_perform _).seq fun _ middle => ?_
    exact (silent_keep [value]).follows fun _ _ => (silent_drop fuel _).follows_unit
  | extendList ref extra =>
    exact (follows_perform _).seq fun _ middle => (silent_keep extra.toList).follows_unit
  | close declaration =>
    refine (silent_look _).follows fun chain _ => (follows_perform _).seq fun function middle => ?_
    exact (silent_updateHandles _).follows fun _ _ => follows_pure function
  | assign name value =>
    exact follows_rebind fuel (fun env => env.replaced name) (fun env => env.set name value) value
  | declare name value =>
    exact follows_rebind fuel (fun env => env.replacedLocal name)
      (fun env => env.declareLocal name value) value
  | write text => exact follows_perform _
  | readLine => exact follows_perform _
  | located position plan ih => exact (ih h).located position
  | yield | andThen | inControl | inBlock | inCall | within | holding | owning => cases h

/-- The events so far are the first ones of the plan. -/
def CutOff (plan : Plan α) (machine after : Machine) : Prop :=
  ∃ seen, seen <+: plan.events machine ∧ machine.Accounts seen after

/-- Running the plan on the store does what the plan does to the machine. If the run crashes, it
has been cut off. -/
def Tracked (fuel : Nat) (plan : Plan α) (machine : Machine) : Prop :=
  ∀ handles, Follows (plan.onStore fuel) plan.run (plan.CutOff machine) ⟨machine, handles⟩

namespace Tracked

variable {plan : Plan α} {machine : Machine}

theorem of_isStep (h : plan.isStep) : plan.Tracked fuel machine :=
  fun _ => (follows_step h).imp fun _ hsame => ⟨[], List.nil_prefix, .refl hsame⟩

theorem yield (value : α) : (yield value).Tracked fuel machine :=
  fun _ => follows_pure value

theorem andThen {second : α → Plan β} (h : plan.Tracked fuel machine)
    (haccounts : (plan.run machine).Meets
      (fun _ middle => machine.Accounts (plan.events machine) middle) (fun _ _ => True) True)
    (h' : ∀ value middle, plan.run machine = .done value middle →
      (second value).Tracked fuel middle) : (plan.andThen second).Tracked fuel machine := by
  intro handles
  refine ((h handles).imp fun after hcut => ?_).bind fun value middle hran => ?_
  · obtain ⟨seen, hseen, hafter⟩ := hcut
    obtain ⟨later, hlater⟩ := events_andThen plan second machine
    exact ⟨seen, hlater ▸ hseen.trans (List.prefix_append _ _), hafter⟩
  · refine (h' value middle.machine hran middle.handles).imp fun after hcut => ?_
    obtain ⟨seen, hseen, hafter⟩ := hcut
    rw [hran] at haccounts
    refine ⟨plan.events machine ++ seen, ?_, haccounts.trans hafter⟩
    rw [(andThen_done second hran).2]
    exact (List.prefix_append_right_inj _).2 hseen

/-- What is cut off inside of something that has nothing to do with the streams. -/
theorem CutOff.around {enter : Machine → Machine} {back : Machine → Machine → Machine}
    {outer : Plan α} (haround : Around enter back outer plan) {after : Machine}
    (h : plan.CutOff (enter machine) after) : outer.CutOff machine after := by
  obtain ⟨seen, hseen, hcapacity, houtput, hinput⟩ := h
  rw [haround.bystander.enter_console] at hcapacity houtput hinput
  exact ⟨seen, haround.events machine ▸ hseen, hcapacity, houtput, hinput⟩

theorem inBlock (h : plan.Tracked fuel machine.enterBlock) :
    plan.inBlock.Tracked fuel machine :=
  fun _ => follows_inBlock fuel fun handles =>
    (h handles).imp fun _ => CutOff.around (around_inBlock plan)

theorem inControl {enter exit : Control → Control} (h : plan.Tracked fuel (machine.turn enter)) :
    (plan.inControl enter exit).Tracked fuel machine :=
  fun handles =>
    ((h handles).imp fun _ => CutOff.around (around_inControl enter exit plan)).followed
      (does_update (Machine.turn exit))

theorem inCall {closure : Closure} {arguments : List Value}
    (h : plan.Tracked fuel (machine.inBody closure arguments)) :
    (plan.inCall closure arguments).Tracked fuel machine :=
  fun _ => follows_inCall fuel closure arguments fun handles =>
    (h handles).imp fun _ => CutOff.around (around_inCall closure arguments plan)

theorem located (position : Position) (h : plan.Tracked fuel machine) :
    (plan.located position).Tracked fuel machine :=
  fun handles => (h handles).located position

theorem within (node : Node) (h : plan.Tracked fuel machine) :
    (plan.within node).Tracked fuel machine := by
  intro handles
  refine Follows.imp (h handles) fun after hcut => ?_
  obtain ⟨seen, hseen, hafter⟩ := hcut
  exact ⟨seen, (events_within node plan machine).symm ▸ hseen, hafter⟩

theorem holding (values : List Value) (h : plan.Tracked fuel machine) :
    (plan.holding values).Tracked fuel machine :=
  fun handles => (h handles).held (silent_drop fuel values)

theorem owning (values : List Value) (h : plan.Tracked fuel machine) :
    (plan.owning values).Tracked fuel machine :=
  fun handles => (h handles).ifFailed (silent_drop fuel values)

theorem of_idle {value : α} (h : plan.idle? = some value) : plan.Tracked fuel machine := by
  induction plan with
  | yield found => exact .yield found
  | holding values plan ih => exact (ih h).holding values
  | _ => cases h

theorem jump (hasGoal : Control → Bool) (flow : Flow) (error : RuntimeError) :
    (Plan.jump hasGoal flow error).Tracked fuel machine := by
  refine andThen (of_isStep rfl) (.refl rfl) fun goal middle _ => ?_
  split
  · exact of_isStep rfl
  · exact of_isStep rfl

/-- What follows a check of the flow. -/
theorem check {goes : α → Prop} {action : Eval α} {second : α → Plan β} {made : β → Prop}
    (h : action.Checks goes)
    (hgoes : ∀ value change, goes value → machine.control.Passes (change machine.control) →
      (second value).Tracked fuel (machine.turn change))
    (hstops : ∀ value, ¬ goes value → ∃ result, (second value).idle? = some result ∧
      made result) :
    ((perform action).andThen second).Tracked fuel machine := by
  obtain ⟨value, change, hran, hpasses, _⟩ := h.turns machine
  refine andThen (of_isStep rfl) ?_ fun found middle hfound => ?_
  · exact (h.quiet.console machine).imp (fun _ _ => .refl) (fun _ _ _ => trivial) id
  · cases hran.symm.trans hfound
    by_cases hgo : goes value
    · exact hgoes value change hgo hpasses
    · obtain ⟨result, hidle, _⟩ := hstops value hgo
      exact of_idle hidle

end Tracked

/-- The events of a part that is not the last one account for its streams. -/
theorem Lawful.accounts {policy : Policy} {places : Position → Prop} {mode : Mode}
    {made : α → Prop} {plan : Plan α} (h : plan.Lawful policy places mode made)
    {machine : Machine} (hm : policy.Holds machine) : (plan.run machine).Meets
      (fun _ middle => machine.Accounts (plan.events machine) middle) (fun _ _ => True) True :=
  (h.streams 0 hm).accounts.imp (fun _ _ => id) (fun _ _ _ => trivial) fun _ => trivial

/-- Running a lawful plan on the store does what the plan does, unless it is cut off. -/
theorem Lawful.tracked {policy : Policy} {places : Position → Prop} {mode : Mode}
    {made : α → Prop} {plan : Plan α} (h : plan.Lawful policy places mode made) (fuel : Nat)
    {machine : Machine} (hm : policy.Holds machine) : plan.Tracked fuel machine := by
  induction h generalizing machine with
  | yield => exact .yield _
  | andThen hfirst _ ihfirst ihsecond =>
    refine (ihfirst hm).andThen (hfirst.accounts hm) fun value middle hran => ?_
    have hmiddle := hfirst.sound machine hm
    rw [hran] at hmiddle
    exact ihsecond value hmiddle.1 hmiddle.2.1.toHolds
  | leaf h => exact .of_isStep h.isStep
  | write text => exact .of_isStep rfl
  | readLine => exact .of_isStep rfl
  | expr _ _ ih => exact ((ih hm).located _).within _
  | statement _ _ _ _ ih => exact (ih hm).within _
  | jump => exact (Tracked.jump _ _ _).within _
  | holding values _ ih => exact (ih hm).holding values
  | owning values _ ih => exact (ih hm).owning values
  | inBlock _ ih => exact (ih hm.enterBlock).inBlock
  | @inControl _ _ _ _ _ enter exit _ hbracket _ _ ih =>
    have henter : policy.Holds (machine.turn enter) :=
      hm.turn ((hbracket.enter_returned _).symm ▸ hm.returned)
    exact (ih henter).inControl
  | inCall hclosure harguments hbody ih =>
    have hinside := hm.inBody hclosure harguments
    exact ((ih hinside).andThen (hbody.accounts hinside) fun _ _ _ => .of_isStep rfl).inCall
  | afterwards hfirst hchecks _ hstops ihfirst ihgoes =>
    refine (ihfirst hm).andThen (hfirst.accounts hm) fun _ middle hran => ?_
    have hmiddle := hfirst.sound machine hm
    rw [hran] at hmiddle
    refine .check hchecks (fun value change hgo hpasses => ihgoes value hgo ?_) hstops
    exact hmiddle.2.1.toHolds.turn (hpasses.returned.symm ▸ hmiddle.2.1.returned)
  | endSwitch h ih =>
    exact (ih hm).andThen (h.accounts hm) fun _ _ _ => .of_isStep rfl
  | setReturn => exact .of_isStep rfl
  | calm _ ih => exact ih hm

end Plan

/-! ### Runs -/

/-- Running a program on the store does what the run does, unless it is cut off. -/
theorem Program.onStore_follows (program : Program) (fuel : Nat) (console : Console) :
    Store.Follows ((program.plan fuel).onStore fuel) (program.run fuel)
      ((program.plan fuel).CutOff (.initial console)) (.initial console) :=
  (plan_lawful_only (fun declaration _ => CodePolicy.any_allows declaration) fuel).tracked fuel
    (Machine.only_initial console).holds .none

/-- What a run on the store has read and written: everything that the run reads and writes or,
if it has crashed, a beginning of that. -/
theorem Program.onStore_accounts (program : Program) (fuel : Nat) (console : Console) :
    (((program.plan fuel).onStore fuel) (.initial console)).Meets
      (fun _ after => (Machine.initial console).Accounts
        ((program.plan fuel).events (.initial console)) after.machine)
      (fun stop after => match stop with
        | .error _ => (Machine.initial console).Accounts
          ((program.plan fuel).events (.initial console)) after.machine
        | .crash => (program.plan fuel).CutOff (.initial console) after.machine) True := by
  refine Outcome.Meets.imp (program.onStore_follows fuel console) (fun value after hran => ?_)
    (fun stop after hran => ?_) id
  · exact Program.run_accounts (congrArg Outcome.state? hran)
  · cases stop with
    | error error => exact Program.run_accounts (congrArg Outcome.state? hran)
    | crash => exact hran

end Betty
