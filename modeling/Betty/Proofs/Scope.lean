import Betty.Proofs.Machine.Admits

/-!
# Scopes and control flow

An expression leaves the active chain and the control context as it found them, and a
statement that starts in a normal flow leaves the chain and the depths as they were, on
every way out. So nothing of one request to a machine is seen by the next: between
requests the chain is empty and the control context is the initial one.

## Main definitions

* `Machine.SameContext`, `Machine.SameDepths`: what expressions and statements keep.
* `Request`, `Machine.Serves`: the requests to a machine, one after another.
-/

namespace Betty

/-! ### What is kept -/

/-- Two machines with the same active chain and the same control context. -/
structure Machine.SameContext (before after : Machine) : Prop where
  chain : after.environment.chain = before.environment.chain
  control : after.control = before.control

/-- Two machines with the same active chain and the same numbers of loops and switches
around the current statement. -/
structure Machine.SameDepths (before after : Machine) : Prop where
  chain : after.environment.chain = before.environment.chain
  loopDepth : after.control.loopDepth = before.control.loopDepth
  switchDepth : after.control.switchDepth = before.control.switchDepth

/-- Two machines with the same depths, the second of which goes on normally and has no
other value to return. -/
structure Machine.Undisturbed (before after : Machine) : Prop extends
    before.SameDepths after where
  flow : after.control.flow = .normal
  returned : after.control.returned = before.control.returned

namespace Machine

variable {first second third : Machine}

theorem SameContext.refl (machine : Machine) : machine.SameContext machine := ⟨rfl, rfl⟩

theorem SameContext.trans (h : first.SameContext second) (h' : second.SameContext third) :
    first.SameContext third :=
  ⟨h'.chain.trans h.chain, h'.control.trans h.control⟩

end Machine

section

variable {α : Type} {policy : Policy} {places : Position → Prop} {made : α → Prop}
  {plan : Plan α} {machine : Machine}

/-- What is lawful in an expression keeps the context, however it ends. -/
theorem Plan.Lawful.sameContext (h : plan.Lawful policy places .calm made)
    (hm : policy.Holds machine) :
    (plan.run machine).Meets (fun _ after => machine.SameContext after)
      (fun _ after => machine.SameContext after) True := by
  refine (h.sound machine hm).imp ?_ ?_ id
  · exact fun _ _ hdone => ⟨hdone.2.1.chain, hdone.2.2⟩
  · exact fun _ _ hfailed => ⟨hfailed.2.1.chain, hfailed.2.2⟩

/-- What is lawful in a statement keeps the depths, and fails in a normal flow. -/
theorem Plan.Lawful.sameDepths {counted here : Place}
    (h : plan.Lawful policy places (.inside counted here) made) (hm : policy.Holds machine)
    (hflow : machine.control.flow = .normal) :
    (plan.run machine).Meets (fun _ after => machine.SameDepths after)
      (fun _ after => machine.Undisturbed after) True := by
  refine (h.sound machine hm).imp ?_ ?_ id
  · rintro _ after ⟨_, hkeeps, hends⟩
    exact ⟨hkeeps.chain, (hends hflow).loopDepth, (hends hflow).switchDepth⟩
  · rintro _ after ⟨_, hkeeps, hfails⟩
    have hundisturbed := hfails hflow
    exact ⟨⟨hkeeps.chain, hundisturbed.loopDepth, hundisturbed.switchDepth⟩, hundisturbed.flow,
      hundisturbed.returned⟩

end

/-! ### Requests -/

/-- What can be asked of a machine from outside: to run a program, or to call a function
with given arguments. -/
inductive Request where
  | run (program : Program)
  | call (closure : Closure) (arguments : List Value)

/-- The computation that serves a request. -/
def Request.action (fuel : Nat) : Request → Eval Value
  | run program => program.run fuel
  | call closure arguments => callFunction fuel closure arguments

/-- The plan of a request. -/
def Request.plan (fuel : Nat) : Request → Plan Value
  | run program => program.plan fuel
  | call closure arguments => Plan.callFunction fuel closure arguments

theorem Request.run_plan (fuel : Nat) (request : Request) :
    (request.plan fuel).run = request.action fuel := by
  cases request <;> rfl

/-- All requests to a machine are lawful if the policy allows everything. -/
theorem Request.plan_lawful {policy : Policy} (hallows : ∀ declaration, policy.Allows declaration)
    (hvalue : ∀ value, policy.value value)
    (hbind : ∀ {env} name, policy.environment env → policy.environment (env.bindGlobal name .none))
    (fuel : Nat) (request : Request) :
    ∃ places, (request.plan fuel).Lawful policy places .calm policy.value := by
  cases request with
  | run program =>
    exact ⟨_, Program.plan_lawful (fun declaration _ => hallows declaration) hbind fuel⟩
  | call closure arguments =>
    exact ⟨fun _ => True, (policy.admits fuel).callFunction (hvalue _)
      (fun value _ => hvalue value) fun _ => trivial⟩

theorem Request.plan_lawful_any (fuel : Nat) (request : Request) :
    ∃ places, (request.plan fuel).Lawful (.only .any) places .calm (Policy.only .any).value := by
  have hbind : ∀ {env} name, (Policy.only .any).environment env →
      (Policy.only .any).environment (env.bindGlobal name .none) :=
    fun name henv => Environment.Only.bindGlobal henv name (Value.only_any _)
  exact request.plan_lawful CodePolicy.any_allows Value.only_any hbind fuel

/-- `start.Serves requests finish`: serving the requests one after another leads from one
machine to the other. Each request ends, with a value or with an error. -/
inductive Machine.Serves : Machine → List Request → Machine → Prop
  | nil (machine : Machine) : machine.Serves [] machine
  | done {start next finish : Machine} {request : Request} {requests : List Request}
      {fuel : Nat} {value : Value} (h : request.action fuel start = .done value next)
      (rest : next.Serves requests finish) : start.Serves (request :: requests) finish
  | failed {start next finish : Machine} {request : Request} {requests : List Request}
      {fuel : Nat} {error : RuntimeError} (h : request.action fuel start = .failed error next)
      (rest : next.Serves requests finish) : start.Serves (request :: requests) finish

theorem Request.action_sameContext (fuel : Nat) (request : Request) (machine : Machine) :
    (request.action fuel machine).Meets (fun _ after => machine.SameContext after)
      (fun _ after => machine.SameContext after) True := by
  obtain ⟨_, hlawful⟩ := request.plan_lawful_any fuel
  exact request.run_plan fuel ▸ hlawful.sameContext (Policy.holds_any machine)

/-- What every request does, whether it fails or not, is what requests do one after another. -/
theorem Machine.Serves.relates (relation : Machine → Machine → Prop)
    (hrefl : ∀ machine, relation machine machine)
    (htrans : ∀ {first second third}, relation first second → relation second third →
      relation first third)
    (haction : ∀ fuel (request : Request) machine, (request.action fuel machine).Meets
      (fun _ after => relation machine after) (fun _ after => relation machine after) True)
    {start finish : Machine} {requests : List Request} (h : start.Serves requests finish) :
    relation start finish := by
  induction h with
  | nil machine => exact hrefl machine
  | @done start next finish request requests fuel value hr _ ih =>
    have hrelated := haction fuel request start
    rw [hr] at hrelated
    exact htrans hrelated ih
  | @failed start next finish request requests fuel error hr _ ih =>
    have hrelated := haction fuel request start
    rw [hr] at hrelated
    exact htrans hrelated ih

/-- Requests leave no trace in the context, whichever of them fail. -/
theorem Machine.Serves.sameContext {start finish : Machine} {requests : List Request}
    (h : start.Serves requests finish) : start.SameContext finish :=
  h.relates Machine.SameContext .refl .trans Request.action_sameContext

/-- Expressions keep the chain and the control context, statements keep the chain and the
depths, and an error is raised in a normal flow. So the context of a machine between
requests is always the one it started with. -/
theorem scope_discipline :
    (∀ fuel expr machine, machine.control.flow = .normal →
      (evaluate fuel expr machine).Meets (fun _ after => machine.SameContext after)
        (fun _ after => machine.SameContext after) True) ∧
    (∀ fuel statement machine, machine.control.flow = .normal →
      (execute fuel statement machine).Meets (fun _ after => machine.SameDepths after)
        (fun _ after => machine.Undisturbed after) True) ∧
    (∀ console requests machine, (Machine.initial console).Serves requests machine →
      machine.environment.chain = [] ∧ machine.control = .initial) := by
  refine ⟨?_, ?_, ?_⟩
  · intro fuel expr machine _
    exact (Plan.evaluate_lawful fuel expr).sameContext (Policy.holds_any machine)
  · intro fuel statement machine hflow
    exact (Plan.execute_lawful fuel statement).sameDepths (Policy.holds_any machine) hflow
  · intro console requests machine h
    exact ⟨h.sameContext.chain, h.sameContext.control⟩

/-- A program that fails in a block, in a loop, in a switch. -/
def failingInside : Program :=
  ⟨[], [⟨0, ⟨1, 1⟩, some "main", [],
    .block [.switch (.boolean ⟨2, 9⟩ true) [⟨none,
      [.whileLoop (.boolean ⟨3, 8⟩ true) (.block [.expr (.name ⟨4, 3⟩ "missing")])]⟩]]⟩]⟩

theorem scope_discipline_after_failure :
    ∃ machine, (Machine.initial (.ofInput [])).Serves [.run failingInside, .run failingInside]
        machine ∧ machine.environment.chain = [] ∧ machine.control = .initial := by
  have hserves : ∃ machine, (Machine.initial (.ofInput [])).Serves
      [.run failingInside, .run failingInside] machine :=
    ⟨_, @Machine.Serves.failed _ _ _ _ _ 12 _ rfl (@Machine.Serves.failed _ _ _ _ _ 12 _ rfl
      (.nil _))⟩
  obtain ⟨machine, h⟩ := hserves
  exact ⟨machine, h, scope_discipline.2.2 _ _ machine h⟩

end Betty
