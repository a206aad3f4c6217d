import Betty.Proofs.Machine.Record

/-!
# Enough fuel

Fuel only decides whether a computation is cut off. A computation that ends does the same with
any more fuel, so it makes sense to say how it ends without saying how much fuel there was.

## Main definitions

* `Action.Approximates`: a computation does what another one does, unless it is cut off.
* `Eval.Ends`: how a computation ends if it has enough fuel.
* `Expr.Ends`, `Stmt.Ends`: the same, of expressions and statements.

## Main results

* `approximating`: less fuel approximates more fuel.
* `Eval.Ends.unique`: a computation ends in one way only.
* `Eval.ends_bind`: how one computation after another ends.
-/

namespace Betty

/-! ### Computations that are cut off earlier -/

/-- Wherever the first computation is not cut off, the second one ends in the same way. -/
def Action.Approximates {ε σ α : Type} (shorter longer : Action ε σ α) : Prop :=
  ∀ state, shorter state ≠ .outOfFuel → longer state = shorter state

namespace Action.Approximates

variable {ε σ α β : Type}

theorem refl (action : Action ε σ α) : action.Approximates action :=
  fun _ _ => rfl

theorem exhausted (longer : Action ε σ α) : Approximates Action.exhausted longer :=
  fun _ h => absurd rfl h

theorem bind {first first' : Action ε σ α} {second second' : α → Action ε σ β}
    (h : first.Approximates first') (h' : ∀ value, (second value).Approximates (second' value)) :
    (first >>= second).Approximates (first' >>= second') := by
  intro state hends
  change Action.bind first second state ≠ .outOfFuel at hends
  change Action.bind first' second' state = Action.bind first second state
  unfold Action.bind at hends ⊢
  cases hfirst : first state with
  | done value after =>
    rw [hfirst] at hends
    rw [h state (by simp [hfirst]), hfirst]
    exact h' value after hends
  | failed error after => rw [h state (by simp [hfirst]), hfirst]
  | outOfFuel =>
    rw [hfirst] at hends
    exact absurd rfl hends

theorem ite {condition : Prop} [Decidable condition] {yes yes' no no' : Action ε σ α}
    (hyes : yes.Approximates yes') (hno : no.Approximates no') :
    Approximates (if condition then yes else no) (if condition then yes' else no') := by
  split <;> assumption

end Action.Approximates

/-- The first plan is the second one, cut off earlier in places. -/
inductive Plan.Below : {α : Type} → Plan α → Plan α → Prop
  | refl {α : Type} (plan : Plan α) : Below plan plan
  | exhausted {α : Type} (plan : Plan α) : Below .exhausted plan
  | andThen {α β : Type} {first first' : Plan α} {second second' : α → Plan β}
    (h : Below first first') (h' : ∀ value, Below (second value) (second' value)) :
    Below (.andThen first second) (.andThen first' second')
  | onHeap {action action' : HeapAction Value} (changed : List ListRef)
    (h : action.Approximates action') : Below (.onHeap changed action) (.onHeap changed action')
  | inControl {α : Type} {plan plan' : Plan α} (enter exit : Control → Control)
    (h : Below plan plan') : Below (.inControl enter exit plan) (.inControl enter exit plan')
  | inBlock {α : Type} {plan plan' : Plan α} (h : Below plan plan') :
    Below (.inBlock plan) (.inBlock plan')
  | inCall {α : Type} {plan plan' : Plan α} (closure : Closure) (arguments : List Value)
    (h : Below plan plan') :
    Below (.inCall closure arguments plan) (.inCall closure arguments plan')
  | located {α : Type} {plan plan' : Plan α} (position : Position) (h : Below plan plan') :
    Below (.located position plan) (.located position plan')
  | within {α : Type} {plan plan' : Plan α} (node : Node) (h : Below plan plan') :
    Below (.within node plan) (.within node plan')
  | holding {α : Type} {plan plan' : Plan α} (values : List Value) (h : Below plan plan') :
    Below (.holding values plan) (.holding values plan')
  | owning {α : Type} {plan plan' : Plan α} (values : List Value) (h : Below plan plan') :
    Below (.owning values plan) (.owning values plan')

namespace Plan.Below

variable {α β : Type}

theorem bind {first first' : Plan α} {second second' : α → Plan β} (h : first.Below first')
    (h' : ∀ value, (second value).Below (second' value)) :
    (first >>= second).Below (first' >>= second') :=
  .andThen h h'

theorem ite {condition : Prop} [Decidable condition] {yes yes' no no' : Plan α}
    (hyes : yes.Below yes') (hno : no.Below no') :
    Below (if condition then yes else no) (if condition then yes' else no') := by
  split <;> assumption

theorem inLoop {plan plan' : Plan α} (h : plan.Below plan') : plan.inLoop.Below plan'.inLoop :=
  .inBlock (.inControl _ _ h)

theorem inSwitch {plan plan' : Plan α} (h : plan.Below plan') :
    plan.inSwitch.Below plan'.inSwitch :=
  .inBlock (.inControl _ _ h)

end Plan.Below

/-- A computation that does something with the outcome of another one, and is cut off if that
is. -/
theorem Action.Approximates.around {α β : Type} {shorter longer : Eval α} {inner inner' : Eval β}
    {start : Machine → Machine}
    {view : Machine → Outcome RuntimeError Machine β → Outcome RuntimeError Machine α}
    (h : inner.Approximates inner')
    (hshorter : ∀ machine, shorter machine = view machine (inner (start machine)))
    (hlonger : ∀ machine, longer machine = view machine (inner' (start machine)))
    (hcut : ∀ machine, view machine .outOfFuel = .outOfFuel) : shorter.Approximates longer := by
  intro machine hends
  have hinner : inner (start machine) ≠ .outOfFuel := by
    intro hinner
    rw [hshorter, hinner] at hends
    exact hends (hcut machine)
  rw [hshorter, hlonger, h _ hinner]

theorem Eval.onHeap_approximates {α : Type} {action action' : HeapAction α}
    (h : action.Approximates action') : (onHeap action).Approximates (onHeap action') := by
  intro machine hends
  simp only [onHeap] at hends ⊢
  cases haction : action machine.heap with
  | done value after => rw [h machine.heap (by simp [haction]), haction]
  | failed error after => rw [h machine.heap (by simp [haction]), haction]
  | outOfFuel =>
    rw [haction] at hends
    exact absurd rfl hends

/-- Plans that are cut off earlier do the same where they are not cut off. -/
theorem Plan.Below.run {α : Type} {shorter longer : Plan α} (h : shorter.Below longer) :
    shorter.run.Approximates longer.run := by
  induction h with
  | refl plan => exact .refl _
  | exhausted plan => exact .exhausted _
  | andThen _ _ ih ih' => exact .bind ih ih'
  | onHeap changed h => exact Eval.onHeap_approximates h
  | inControl enter exit _ ih =>
    exact ih.around (run_inControl enter exit _) (run_inControl enter exit _) fun _ => rfl
  | inBlock _ ih => exact ih.around (run_inBlock _) (run_inBlock _) fun _ => rfl
  | inCall closure arguments _ ih =>
    exact ih.around (run_inCall closure arguments _) (run_inCall closure arguments _) fun _ => rfl
  | located position _ ih =>
    exact ih.around (run_located position _) (run_located position _) fun _ => rfl
  | within node _ ih => exact ih
  | holding values _ ih => exact ih
  | owning values _ ih => exact ih

/-! ### Intrinsic functions -/

namespace Intrinsic

variable {fuel more : Nat}

/-- Counting that comes to its end comes to the same end with more fuel. -/
theorem countUp_of_le (stop : Float) (h : fuel ≤ more) {next : Float}
    {found counted : Array Value} (hcounted : countUp stop fuel next found = some counted) :
    countUp stop more next found = some counted := by
  induction fuel generalizing more next found with
  | zero => cases hcounted
  | succ fuel ih =>
    obtain ⟨more, rfl⟩ := Nat.exists_eq_add_of_lt h
    rw [countUp] at hcounted ⊢
    by_cases hbelow : next < stop
    · rw [if_pos hbelow] at hcounted ⊢
      exact ih (by omega) hcounted
    · rw [if_neg hbelow] at hcounted ⊢
      exact hcounted

theorem rangeOf_approximates (h : fuel ≤ more) (start stop : Value) :
    (rangeOf fuel start stop).Approximates (rangeOf more start stop) := by
  unfold rangeOf
  split
  · next a b =>
    cases hcounted : countUp b fuel a #[] with
    | none => exact .exhausted _
    | some items =>
      rw [countUp_of_le b h hcounted]
      exact .refl _
  · exact .refl _
  · exact .refl _

/-- Counting is the only thing on the heap that needs fuel. -/
theorem onHeap_approximates (h : fuel ≤ more) (intrinsic : Intrinsic) (arguments : List Value) :
    (intrinsic.onHeap fuel arguments).Approximates (intrinsic.onHeap more arguments) := by
  rcases arguments with _ | ⟨first, _ | ⟨second, _ | ⟨third, rest⟩⟩⟩
  · cases intrinsic <;> exact .refl _
  · cases intrinsic <;> exact .refl _
  · cases intrinsic with
    | range => exact rangeOf_approximates h first second
    | _ => exact .refl _
  · cases intrinsic <;> exact .refl _

theorem plan_below (h : fuel ≤ more) (intrinsic : Intrinsic) (arguments : List Value) :
    (intrinsic.plan fuel arguments).Below (intrinsic.plan more arguments) := by
  unfold plan
  split
  case h_5 => exact .onHeap _ (onHeap_approximates h _ _)
  all_goals exact .refl _

end Intrinsic

/-! ### Expressions and statements -/

/-- With less fuel the plans of expressions and statements are cut off earlier in places. -/
structure Approximating (fuel more : Nat) : Prop where
  evaluate : ∀ expr, (Plan.evaluate fuel expr).Below (Plan.evaluate more expr)
  evaluateAll : ∀ exprs, (Plan.evaluateAll fuel exprs).Below (Plan.evaluateAll more exprs)
  test : ∀ expr, (Plan.test fuel expr).Below (Plan.test more expr)
  choose : ∀ branches otherwise,
    (Plan.choose fuel branches otherwise).Below (Plan.choose more branches otherwise)
  equalArm : ∀ subject arms,
    (Plan.equalArm fuel subject arms).Below (Plan.equalArm more subject arms)
  equalCase : ∀ subject cases position,
    (Plan.equalCase fuel subject cases position).Below (Plan.equalCase more subject cases position)
  assignTo : ∀ target op value,
    (Plan.assignTo fuel target op value).Below (Plan.assignTo more target op value)
  step : ∀ up fixity operand,
    (Plan.step fuel up fixity operand).Below (Plan.step more up fixity operand)
  call : ∀ callee arguments,
    (Plan.call fuel callee arguments).Below (Plan.call more callee arguments)
  callFunction : ∀ closure arguments,
    (Plan.callFunction fuel closure arguments).Below (Plan.callFunction more closure arguments)
  execute : ∀ statement, (Plan.execute fuel statement).Below (Plan.execute more statement)
  executeAll : ∀ statements,
    (Plan.executeAll fuel statements).Below (Plan.executeAll more statements)
  executeClauses : ∀ clauses otherwise,
    (Plan.executeClauses fuel clauses otherwise).Below (Plan.executeClauses more clauses otherwise)
  executeCases : ∀ cases, (Plan.executeCases fuel cases).Below (Plan.executeCases more cases)
  whileRounds : ∀ condition body,
    (Plan.whileRounds fuel condition body).Below (Plan.whileRounds more condition body)
  doRounds : ∀ body condition,
    (Plan.doRounds fuel body condition).Below (Plan.doRounds more body condition)
  forRounds : ∀ condition step body,
    (Plan.forRounds fuel condition step body).Below (Plan.forRounds more condition step body)
  testOptional : ∀ condition,
    (Plan.testOptional fuel condition).Below (Plan.testOptional more condition)
  evaluateOptional : ∀ expr,
    (Plan.evaluateOptional fuel expr).Below (Plan.evaluateOptional more expr)
  foreachRounds : ∀ element items body,
    (Plan.foreachRounds fuel element items body).Below (Plan.foreachRounds more element items body)

namespace Approximating

variable {fuel more : Nat}

theorem evaluate_succ (ih : Approximating fuel more) (expr : Expr) :
    (Plan.evaluate (fuel + 1) expr).Below (Plan.evaluate (more + 1) expr) := by
  rw [Plan.evaluate.eq_def (fuel + 1), Plan.evaluate.eq_def (more + 1)]
  refine .within _ (.located _ ?_)
  cases expr with
  | list _ items => exact .bind (ih.evaluateAll items) fun _ => .refl _
  | index _ collection index =>
    exact .bind (ih.evaluate collection) fun _ =>
      .bind (.owning _ (ih.evaluate index)) fun _ => .refl _
  | binary _ left op right =>
    exact .bind (ih.evaluate left) fun _ => .bind (.owning _ (ih.evaluate right)) fun _ => .refl _
  | unary _ op fixity operand =>
    cases op with
    | increment => exact ih.step true fixity operand
    | decrement => exact ih.step false fixity operand
    | _ => exact .bind (ih.evaluate operand) fun _ => .refl _
  | ternary _ condition yes no =>
    exact .bind (ih.test condition) fun _ => .ite (ih.evaluate yes) (ih.evaluate no)
  | assign _ target op value => exact ih.assignTo target op value
  | call _ callee arguments => exact ih.call callee arguments
  | choose _ condition yes branches otherwise =>
    exact .bind (ih.test condition) fun _ => .ite (ih.evaluate yes) (ih.choose branches otherwise)
  | switch _ subject arms =>
    refine .bind (ih.evaluate subject) fun _ =>
      .holding _ (.bind (ih.equalArm _ _) fun result => ?_)
    cases result with
    | some result => exact .refl _
    | none =>
      dsimp only
      split
      · exact ih.evaluate _
      · exact .refl _
  | _ => exact .refl _

theorem evaluateAll_succ (ih : Approximating fuel more) (exprs : List Expr) :
    (Plan.evaluateAll (fuel + 1) exprs).Below (Plan.evaluateAll (more + 1) exprs) := by
  cases exprs with
  | nil => exact .refl _
  | cons expr rest =>
    rw [Plan.evaluateAll, Plan.evaluateAll]
    exact .bind (ih.evaluate expr) fun _ => .bind (.owning _ (ih.evaluateAll rest)) fun _ => .refl _

theorem test_succ (ih : Approximating fuel more) (expr : Expr) :
    (Plan.test (fuel + 1) expr).Below (Plan.test (more + 1) expr) := by
  rw [Plan.test, Plan.test]
  exact .bind (ih.evaluate expr) fun _ => .refl _

theorem choose_succ (ih : Approximating fuel more) (branches : List Branch) (otherwise : Expr) :
    (Plan.choose (fuel + 1) branches otherwise).Below
      (Plan.choose (more + 1) branches otherwise) := by
  cases branches with
  | nil =>
    rw [Plan.choose, Plan.choose]
    exact ih.evaluate otherwise
  | cons branch rest =>
    rw [Plan.choose, Plan.choose]
    exact .bind (ih.test _) fun _ => .ite (ih.evaluate _) (ih.choose rest otherwise)

theorem equalArm_succ (ih : Approximating fuel more) (subject : Value) (arms : List Arm) :
    (Plan.equalArm (fuel + 1) subject arms).Below (Plan.equalArm (more + 1) subject arms) := by
  cases arms with
  | nil => exact .refl _
  | cons arm rest =>
    rw [Plan.equalArm, Plan.equalArm]
    split
    · exact ih.equalArm subject rest
    · refine .bind (ih.evaluate _) fun _ => .bind (.refl _) fun _ => .ite ?_ ?_
      · exact .bind (.holding _ (ih.evaluate _)) fun _ => .refl _
      · exact .bind (.refl _) fun _ => ih.equalArm subject rest

theorem equalCase_succ (ih : Approximating fuel more) (subject : Value) (cases : List Case)
    (position : Nat) :
    (Plan.equalCase (fuel + 1) subject cases position).Below
      (Plan.equalCase (more + 1) subject cases position) := by
  cases cases with
  | nil => exact .refl _
  | cons first rest =>
    rw [Plan.equalCase, Plan.equalCase]
    split
    · exact ih.equalCase subject rest _
    · refine .bind (ih.evaluate _) fun _ => .bind (.refl _) fun _ => .bind (.refl _) fun _ => ?_
      exact .ite (.refl _) (ih.equalCase subject rest _)

theorem assignTo_succ (ih : Approximating fuel more) (target : Expr) (op : Option BinaryOp)
    (value : Expr) :
    (Plan.assignTo (fuel + 1) target op value).Below
      (Plan.assignTo (more + 1) target op value) := by
  rw [Plan.assignTo, Plan.assignTo]
  refine .bind (ih.evaluate value) fun value => ?_
  split
  · exact .refl _
  · exact .bind (.owning _ (ih.evaluate _)) fun _ => .bind (.owning _ (ih.evaluate _)) fun _ =>
      .refl _
  · exact .refl _

theorem step_succ (ih : Approximating fuel more) (up : Bool) (fixity : Fixity) (operand : Expr) :
    (Plan.step (fuel + 1) up fixity operand).Below (Plan.step (more + 1) up fixity operand) := by
  rw [Plan.step.eq_def (fuel + 1), Plan.step.eq_def (more + 1)]
  dsimp only
  split
  · exact .refl _
  · exact .bind (ih.evaluate _) fun _ => .bind (.owning _ (ih.evaluate _)) fun _ => .refl _
  · exact .refl _

theorem call_succ (ih : Approximating fuel more) (h : fuel ≤ more) (callee : Callee)
    (arguments : List Expr) :
    (Plan.call (fuel + 1) callee arguments).Below (Plan.call (more + 1) callee arguments) := by
  cases callee with
  | named name =>
    rw [Plan.call, Plan.call]
    split
    · exact .bind (.refl _) fun _ => .bind (ih.evaluateAll arguments) fun _ =>
        .holding _ (Intrinsic.plan_below h _ _)
    · exact .bind (.refl _) fun _ => .holding _ (.bind (ih.evaluateAll arguments) fun _ =>
        ih.callFunction _ _)
  | computed function =>
    rw [Plan.call, Plan.call]
    refine .bind (ih.evaluate function) fun value => ?_
    split
    · exact .holding _ (.bind (ih.evaluateAll arguments) fun _ => ih.callFunction _ _)
    · exact .refl _

theorem callFunction_succ (ih : Approximating fuel more) (closure : Closure)
    (arguments : List Value) :
    (Plan.callFunction (fuel + 1) closure arguments).Below
      (Plan.callFunction (more + 1) closure arguments) := by
  rw [Plan.callFunction, Plan.callFunction]
  exact .ite (.inCall _ _ (.bind (ih.execute _) fun _ => .refl _)) (.refl _)

theorem execute_succ (ih : Approximating fuel more) (statement : Stmt) :
    (Plan.execute (fuel + 1) statement).Below (Plan.execute (more + 1) statement) := by
  rw [Plan.execute.eq_def (fuel + 1), Plan.execute.eq_def (more + 1)]
  refine .within _ ?_
  cases statement with
  | expr expr => exact .bind (ih.evaluate expr) fun _ => .refl _
  | block body => exact .inBlock (ih.executeAll body)
  | branch condition yes clauses otherwise =>
    exact .bind (ih.test condition) fun _ =>
      .ite (ih.execute yes) (ih.executeClauses clauses otherwise)
  | whileLoop condition body => exact .inLoop (ih.whileRounds condition body)
  | doWhileLoop body condition => exact .inLoop (ih.doRounds body condition)
  | forLoop start condition step body =>
    exact .inLoop (.bind (ih.evaluateOptional start) fun _ => ih.forRounds condition step body)
  | foreachLoop element iterable body =>
    refine .bind (ih.evaluate iterable) fun collection =>
      .holding _ (.bind (.refl _) fun items => ?_)
    cases items with
    | none => exact .refl _
    | some items => exact .inLoop (ih.foreachRounds element items body)
  | switch subject cases =>
    refine .bind (ih.evaluate subject) fun value =>
      .holding _ (.bind (ih.equalCase _ _ _) fun start => ?_)
    split
    · exact .bind (.inSwitch (ih.executeCases _)) fun _ => .refl _
    · exact .refl _
  | returnStmt value =>
    cases value with
    | none => exact .refl _
    | some expr => exact .bind (ih.evaluate expr) fun _ => .refl _
  | _ => exact .refl _

theorem executeAll_succ (ih : Approximating fuel more) (statements : List Stmt) :
    (Plan.executeAll (fuel + 1) statements).Below (Plan.executeAll (more + 1) statements) := by
  cases statements with
  | nil => exact .refl _
  | cons statement rest =>
    rw [Plan.executeAll, Plan.executeAll]
    exact .bind (ih.execute statement) fun _ => .bind (.refl _) fun _ =>
      .ite (ih.executeAll rest) (.refl _)

theorem executeClauses_succ (ih : Approximating fuel more) (clauses : List Clause)
    (otherwise : Option Stmt) :
    (Plan.executeClauses (fuel + 1) clauses otherwise).Below
      (Plan.executeClauses (more + 1) clauses otherwise) := by
  cases clauses with
  | nil =>
    cases otherwise with
    | none => exact .refl _
    | some otherwise =>
      rw [Plan.executeClauses, Plan.executeClauses]
      exact ih.execute otherwise
  | cons clause rest =>
    rw [Plan.executeClauses, Plan.executeClauses]
    exact .bind (ih.test _) fun _ => .ite (ih.execute _) (ih.executeClauses rest otherwise)

theorem executeCases_succ (ih : Approximating fuel more) (cases : List Case) :
    (Plan.executeCases (fuel + 1) cases).Below (Plan.executeCases (more + 1) cases) := by
  cases cases with
  | nil => exact .refl _
  | cons first rest =>
    rw [Plan.executeCases, Plan.executeCases]
    exact .bind (ih.executeAll first.body) fun _ => .bind (.refl _) fun _ =>
      .ite (ih.executeCases rest) (.refl _)

theorem whileRounds_succ (ih : Approximating fuel more) (condition : Expr) (body : Stmt) :
    (Plan.whileRounds (fuel + 1) condition body).Below
      (Plan.whileRounds (more + 1) condition body) := by
  rw [Plan.whileRounds, Plan.whileRounds]
  refine .bind (ih.test condition) fun _ => .ite ?_ (.refl _)
  exact .bind (ih.execute body) fun _ => .bind (.refl _) fun _ =>
    .ite (.refl _) (ih.whileRounds condition body)

theorem doRounds_succ (ih : Approximating fuel more) (body : Stmt) (condition : Expr) :
    (Plan.doRounds (fuel + 1) body condition).Below (Plan.doRounds (more + 1) body condition) := by
  rw [Plan.doRounds, Plan.doRounds]
  refine .bind (ih.execute body) fun _ => .bind (.refl _) fun _ => .ite (.refl _) ?_
  exact .bind (ih.test condition) fun _ => .ite (ih.doRounds body condition) (.refl _)

theorem forRounds_succ (ih : Approximating fuel more) (condition step : Option Expr)
    (body : Stmt) :
    (Plan.forRounds (fuel + 1) condition step body).Below
      (Plan.forRounds (more + 1) condition step body) := by
  rw [Plan.forRounds, Plan.forRounds]
  refine .bind (ih.testOptional condition) fun _ => .ite ?_ (.refl _)
  refine .bind (ih.execute body) fun _ => .bind (.refl _) fun _ => .ite (.refl _) ?_
  exact .bind (ih.evaluateOptional step) fun _ => ih.forRounds condition step body

theorem testOptional_succ (ih : Approximating fuel more) (condition : Option Expr) :
    (Plan.testOptional (fuel + 1) condition).Below (Plan.testOptional (more + 1) condition) := by
  cases condition with
  | none => exact .refl _
  | some condition =>
    rw [Plan.testOptional, Plan.testOptional]
    exact ih.test condition

theorem evaluateOptional_succ (ih : Approximating fuel more) (expr : Option Expr) :
    (Plan.evaluateOptional (fuel + 1) expr).Below (Plan.evaluateOptional (more + 1) expr) := by
  cases expr with
  | none => exact .refl _
  | some expr =>
    rw [Plan.evaluateOptional, Plan.evaluateOptional]
    exact .bind (ih.evaluate expr) fun _ => .refl _

theorem foreachRounds_succ (ih : Approximating fuel more) (element : String)
    (items : List Value) (body : Stmt) :
    (Plan.foreachRounds (fuel + 1) element items body).Below
      (Plan.foreachRounds (more + 1) element items body) := by
  cases items with
  | nil => exact .refl _
  | cons item rest =>
    rw [Plan.foreachRounds, Plan.foreachRounds]
    exact .bind (.refl _) fun _ => .bind (.owning _ (ih.execute body)) fun _ =>
      .bind (.refl _) fun _ => .ite (.refl _) (ih.foreachRounds element rest body)

end Approximating

/-- With less fuel the plans are cut off earlier in places, and else the same. -/
theorem approximating {fuel more : Nat} (h : fuel ≤ more) : Approximating fuel more := by
  induction fuel generalizing more with
  | zero =>
    constructor <;> intros <;> exact .exhausted _
  | succ fuel ih =>
    obtain ⟨more, rfl⟩ := Nat.exists_eq_succ_of_ne_zero (Nat.ne_of_gt (Nat.zero_lt_of_lt h))
    have hle : fuel ≤ more := Nat.le_of_succ_le_succ h
    have ih := ih hle
    exact ⟨ih.evaluate_succ, ih.evaluateAll_succ, ih.test_succ, ih.choose_succ, ih.equalArm_succ,
      ih.equalCase_succ, ih.assignTo_succ, ih.step_succ, ih.call_succ hle, ih.callFunction_succ,
      ih.execute_succ, ih.executeAll_succ, ih.executeClauses_succ, ih.executeCases_succ,
      ih.whileRounds_succ, ih.doRounds_succ, ih.forRounds_succ, ih.testOptional_succ,
      ih.evaluateOptional_succ, ih.foreachRounds_succ⟩

/-! ### How computations end -/

namespace Outcome

variable {ε σ α β : Type}

/-- The outcome of a computation whose errors are placed here unless they have a place. -/
def locate (position : Position) : Outcome RuntimeError σ α → Outcome RuntimeError σ α
  | failed error state => .failed (error.locate position) state
  | ended => ended

/-- How one computation after another ends, when the first one has ended like this: as `next`
says after a value, and with the error after an error. -/
def Followed (first : Outcome ε σ α) (next : α → σ → Outcome ε σ β → Prop)
    (outcome : Outcome ε σ β) : Prop :=
  match first with
  | .done value state => next value state outcome
  | .failed error state => outcome = .failed error state
  | .outOfFuel => False

end Outcome

namespace Eval

variable {α β : Type}

/-- With enough fuel, the computation ends like this. -/
def Ends (run : Nat → Eval α) (machine : Machine) (outcome : Outcome RuntimeError Machine α) :
    Prop :=
  outcome ≠ .outOfFuel ∧ ∃ fuel, run fuel machine = outcome

/-- More fuel does not change how the computation ends. -/
def Steady (run : Nat → Eval α) : Prop :=
  ∀ fuel more, fuel ≤ more → (run fuel).Approximates (run more)

theorem Steady.const (action : Eval α) : Steady fun _ => action :=
  fun _ _ _ => .refl _

theorem Steady.bind {first : Nat → Eval α} {second : Nat → α → Eval β} (h : Steady first)
    (h' : ∀ value, Steady fun fuel => second fuel value) :
    Steady fun fuel => first fuel >>= second fuel :=
  fun fuel more hle => .bind (h fuel more hle) fun value => h' value fuel more hle

theorem Steady.ite {condition : Prop} [Decidable condition] {yes no : Nat → Eval α}
    (hyes : Steady yes) (hno : Steady no) :
    Steady fun fuel => if condition then yes fuel else no fuel :=
  fun fuel more hle => .ite (hyes fuel more hle) (hno fuel more hle)

namespace Ends

variable {run : Nat → Eval α} {machine : Machine} {outcome other : Outcome RuntimeError Machine α}

/-- From some amount of fuel on the outcome is the same. -/
theorem eventually (h : Ends run machine outcome) (hsteady : Steady run) :
    ∃ fuel, ∀ more, fuel ≤ more → run more machine = outcome := by
  obtain ⟨hends, fuel, hrun⟩ := h
  refine ⟨fuel, fun more hle => ?_⟩
  rw [hsteady fuel more hle machine (by rwa [hrun]), hrun]

/-- A computation ends in one way only. -/
theorem unique (h : Ends run machine outcome) (h' : Ends run machine other)
    (hsteady : Steady run) : outcome = other := by
  obtain ⟨fuel, hrun⟩ := h.eventually hsteady
  obtain ⟨fuel', hrun'⟩ := h'.eventually hsteady
  rw [← hrun (max fuel fuel') (Nat.le_max_left _ _), hrun' _ (Nat.le_max_right _ _)]

end Ends

variable {machine : Machine}

/-- One unit of fuel more or less does not matter. -/
theorem ends_succ {run : Nat → Eval α} (hsteady : Steady run)
    {outcome : Outcome RuntimeError Machine α} :
    Ends (fun fuel => run (fuel + 1)) machine outcome ↔ Ends run machine outcome := by
  constructor
  · rintro ⟨hends, fuel, hrun⟩
    exact ⟨hends, fuel + 1, hrun⟩
  · intro h
    obtain ⟨fuel, hrun⟩ := h.eventually hsteady
    exact ⟨h.1, fuel, hrun (fuel + 1) (Nat.le_succ _)⟩

/-- A computation that needs no fuel ends as it does. -/
theorem ends_const {action : Eval α} {outcome : Outcome RuntimeError Machine α} :
    Ends (fun _ => action) machine outcome ↔
      outcome ≠ .outOfFuel ∧ action machine = outcome :=
  and_congr_right fun _ => ⟨fun ⟨_, h⟩ => h, fun h => ⟨0, h⟩⟩

theorem ends_pure {value : α} {outcome : Outcome RuntimeError Machine α} :
    Ends (fun _ => pure value) machine outcome ↔ outcome = .done value machine := by
  refine ends_const.trans ⟨fun h => h.2.symm, ?_⟩
  rintro rfl
  exact ⟨by simp, rfl⟩

/-- One computation after another ends with the second, or with an error of the first. -/
theorem ends_bind {first : Nat → Eval α} {second : Nat → α → Eval β} (hfirst : Steady first)
    (hsecond : ∀ value, Steady fun fuel => second fuel value)
    {outcome : Outcome RuntimeError Machine β} :
    Ends (fun fuel => first fuel >>= second fuel) machine outcome ↔
      ∃ middle, Ends first machine middle ∧
        middle.Followed (fun value => Ends fun fuel => second fuel value) outcome := by
  have hbind : ∀ fuel, (first fuel >>= second fuel) machine =
      Action.bind (first fuel) (second fuel) machine := fun _ => rfl
  unfold Action.bind at hbind
  constructor
  · rintro ⟨hends, fuel, hrun⟩
    dsimp only at hrun
    rw [hbind] at hrun
    cases hran : first fuel machine with
    | done value after =>
      rw [hran] at hrun
      exact ⟨_, ⟨by simp, fuel, hran⟩, hends, fuel, hrun⟩
    | failed error after =>
      rw [hran] at hrun
      exact ⟨_, ⟨by simp, fuel, hran⟩, hrun.symm⟩
    | outOfFuel =>
      rw [hran] at hrun
      exact absurd hrun.symm hends
  · rintro ⟨middle, hmiddle, hfollowed⟩
    obtain ⟨fuel, hran⟩ := hmiddle.eventually hfirst
    cases middle with
    | done value after =>
      obtain ⟨fuel', hrun⟩ := hfollowed.eventually (hsecond value)
      refine ⟨hfollowed.1, max fuel fuel', ?_⟩
      dsimp only
      rw [hbind, hran _ (Nat.le_max_left _ _)]
      exact hrun _ (Nat.le_max_right _ _)
    | failed error after =>
      cases hfollowed
      refine ⟨by simp, fuel, ?_⟩
      dsimp only
      rw [hbind, hran fuel (Nat.le_refl _)]
    | outOfFuel => exact hfollowed.elim

/-- The same, where the second computation just yields a value. -/
theorem ends_bind_pure {first : Nat → Eval α} {result : α → β} (hfirst : Steady first)
    {outcome : Outcome RuntimeError Machine β} :
    Ends (fun fuel => first fuel >>= fun value => pure (result value)) machine outcome ↔
      ∃ middle, Ends first machine middle ∧
        middle.Followed (fun value after outcome => outcome = .done (result value) after)
          outcome := by
  refine (ends_bind hfirst fun value => .const (pure (result value))).trans ?_
  refine exists_congr fun middle => and_congr_right fun _ => ?_
  cases middle with
  | done value after => exact ends_pure
  | failed error after => exact Iff.rfl
  | outOfFuel => exact Iff.rfl

/-- A computation that goes on in one of two ways, which the machine tells. -/
theorem ends_query {view : Machine → Bool} {yes no : Nat → Eval α}
    {outcome : Outcome RuntimeError Machine α} :
    Ends (fun fuel => do if ← Action.gets view then yes fuel else no fuel) machine outcome ↔
      if view machine then Ends yes machine outcome else Ends no machine outcome := by
  change Ends (fun fuel => if view machine then yes fuel else no fuel) machine outcome ↔ _
  split <;> rfl

/-- A computation whose outcome is that of another one, seen in some way. -/
theorem ends_map {run : Nat → Eval α} {run' : Nat → Eval β} {start : Machine}
    {view : Outcome RuntimeError Machine α → Outcome RuntimeError Machine β}
    (hrun : ∀ fuel, run' fuel machine = view (run fuel start))
    (hcut : ∀ inner, view inner = .outOfFuel ↔ inner = .outOfFuel)
    {outcome : Outcome RuntimeError Machine β} :
    Ends run' machine outcome ↔ ∃ inner, Ends run start inner ∧ outcome = view inner := by
  constructor
  · rintro ⟨hends, fuel, rfl⟩
    refine ⟨run fuel start, ⟨fun hinner => hends ?_, fuel, rfl⟩, hrun fuel⟩
    rw [hrun, hcut, hinner]
  · rintro ⟨inner, ⟨hends, fuel, rfl⟩, rfl⟩
    exact ⟨fun houter => hends ((hcut _).1 houter), fuel, hrun fuel⟩

/-- A computation that is ensured to be followed by a change of the state. -/
theorem ends_ensuring {run : Nat → Eval α} {change : Machine → Machine}
    {outcome : Outcome RuntimeError Machine α} :
    Ends (fun fuel => (run fuel).ensuring change) machine outcome ↔
      ∃ inner, Ends run machine inner ∧ outcome = inner.mapState change := by
  refine ends_map (fun fuel => ?_) fun inner => ?_
  · unfold ensuring
    cases run fuel machine <;> rfl
  · cases inner <;> simp [Outcome.mapState]

/-- A computation in a block of its own. -/
theorem ends_inBlock {run : Nat → Eval α} {outcome : Outcome RuntimeError Machine α} :
    Ends (fun fuel => (run fuel).inBlock) machine outcome ↔
      ∃ inner, Ends run { machine with environment := machine.environment.push } inner ∧
        outcome = inner.mapState fun after =>
          { after with environment := after.environment.pop } :=
  @ends_ensuring _ { machine with environment := machine.environment.push } run _ outcome

/-- A computation whose errors are placed. -/
theorem ends_located {run : Nat → Eval α} {position : Position}
    {outcome : Outcome RuntimeError Machine α} :
    Ends (fun fuel => (run fuel).located position) machine outcome ↔
      ∃ inner, Ends run machine inner ∧ outcome = inner.locate position := by
  refine ends_map (fun fuel => ?_) fun inner => ?_
  · unfold located
    cases run fuel machine <;> rfl
  · cases inner <;> simp [Outcome.locate]

end Eval

/-- With enough fuel, the evaluation of the expression ends like this. -/
def Expr.Ends (expr : Expr) (machine : Machine) (outcome : Outcome RuntimeError Machine Value) :
    Prop :=
  Eval.Ends (fun fuel => evaluate fuel expr) machine outcome

/-- With enough fuel, the execution of the statement ends like this. -/
def Stmt.Ends (statement : Stmt) (machine : Machine)
    (outcome : Outcome RuntimeError Machine Unit) : Prop :=
  Eval.Ends (fun fuel => execute fuel statement) machine outcome

theorem evaluate_steady (expr : Expr) : Eval.Steady fun fuel => evaluate fuel expr :=
  fun _ _ h => ((approximating h).evaluate expr).run

theorem execute_steady (statement : Stmt) : Eval.Steady fun fuel => execute fuel statement :=
  fun _ _ h => ((approximating h).execute statement).run

theorem executeAll_steady (statements : List Stmt) :
    Eval.Steady fun fuel => (Plan.executeAll fuel statements).run :=
  fun _ _ h => ((approximating h).executeAll statements).run

theorem executeCases_steady (cases : List Case) :
    Eval.Steady fun fuel => (Plan.executeCases fuel cases).run :=
  fun _ _ h => ((approximating h).executeCases cases).run

end Betty
