import Betty.Proofs.Machine.Depths
import Betty.Proofs.Machine.Policy

/-!
# Lawful plans

A plan is lawful if it is put together in the ways in which the evaluation of a program is. A
lawful plan says all of the following about the parts that it is made of.

* Its steps obey a policy, do nothing else to the environment than looking up names, assigning
  to them and declaring them, and apart from reading and writing they have nothing to do with
  the streams.
* An error that a step raises is either not placed yet or is placed where the node that is being
  evaluated says. A step of an expression may leave its errors to be placed by the expression;
  a step of a statement may not.
* An expression leaves the control context alone. A statement is at a place in the body of a
  function, and changes the control context in the ways of loops, switches and jumps only.

So what holds of all runs of programs is proved by one induction on how plans are lawful. What
follows a part of a plan need only be lawful for the values that the part can yield.

## Main definitions

* `Node.sites`: where the errors are placed that a node raises itself.
* `Environment.Moves`, `Moment.Genuine`: what a single step can do.
* `Eval.Step`, `Plan.Leaf`: the steps.
* `Mode`: whether a plan is an expression, or a statement at a place.
* `Plan.Lawful`: plans that are put together in these ways.

## Main results

* `Plan.Lawful.sound`: lawful plans obey the policy and leave the control context in order.
* `Plan.Lawful.shows`: so do all their steps.
-/

namespace Betty

/-! ### Nodes -/

/-- Where an expression places the errors that it raises itself: at its own position, at that
of a condition or a subject that it cannot use, or at that of the target that it changes. -/
def Expr.sites : Expr → List Position
  | .unary p .increment _ operand | .unary p .decrement _ operand => [p, operand.position]
  | .ternary p condition _ _ => [p, condition.position]
  | .assign p target _ _ => [p, target.position]
  | .choose p condition _ branches _ =>
    p :: condition.position :: branches.map fun branch => branch.condition.position
  | .switch p subject _ => [p, subject.position]
  | expr => [expr.position]

/-- Where a statement places the errors that it raises itself. -/
def Stmt.sites : Stmt → List Position
  | .branch condition _ clauses _ =>
    condition.position :: clauses.map fun clause => clause.condition.position
  | .forLoop _ condition _ _ => condition.toList.map Expr.position
  | .foreachLoop _ iterable _ => [iterable.position]
  | .whileLoop condition _ => [condition.position]
  | .doWhileLoop _ condition => [condition.position]
  | .breakStmt p | .continueStmt p | .error p _ => [p]
  | .function declaration => [declaration.position]
  | _ => []

/-- Where a program places the errors of its declarations. -/
def Program.sites (program : Program) : List Position :=
  program.globals.map Prod.snd ++ program.functions.map Declaration.position

/-- Where a node places the errors that it raises itself. -/
def Node.sites : Node → List Position
  | statement found => found.sites
  | expr found => found.sites

/-- A step of the node may raise an error with this position. Errors without a position are
placed by the expression that is being evaluated. -/
def Node.Accepts (node : Node) (place : Position) : Prop :=
  place ∈ node.sites ∨ (∃ found, node = .expr found) ∧ place = .unknown

theorem Node.accepts_unknown (expr : Expr) : (Node.expr expr).Accepts .unknown :=
  .inr ⟨⟨expr, rfl⟩, rfl⟩

/-! ### What a step can do -/

/-- What a step can do to the environment that neither looks up a name nor assigns to one:
nothing, or it enters a block or a call, leaves one, or declares a name. Global variables that
are declared are new, the other names are allowed. -/
inductive Environment.Moves (allowed : String → Prop) (before : Environment) :
    Environment → Prop
  | stay : Moves allowed before before
  | push : Moves allowed before before.push
  | enter (closure : Closure) (arguments : List Value) :
    (∀ parameter ∈ closure.declaration.parameters, allowed parameter) →
    Moves allowed before (before.inBody closure arguments)
  | leave (chain : Chain) : Moves allowed before { before with chain := chain }
  | declare {name : String} (value : Value) : allowed name →
    Moves allowed before (before.declareLocal name value)
  | global {name : String} (value : Value) : ¬ before.globals.contains name →
    Moves allowed before (before.bindGlobal name value)

/-- What is noted of the step is what it does. A lookup finds the value of the name and
changes nothing, an assignment changes the environment as it is to, and all other steps do
nothing to it but what is listed in `Environment.Moves`. -/
def Moment.Genuine (allowed : String → Prop) (moment : Moment) : Prop :=
  match moment.act with
  | .read name found =>
    (found = variableValue moment.before name ∨
      found = moment.before.environment.lookup name) ∧ moment.after = some moment.before
  | .assign name value =>
    moment.after =
      some { moment.before with environment := moment.before.environment.set name value }
  | _ => ∀ after, moment.after = some after →
    moment.before.environment.Moves allowed after.environment

/-- Does the step look up a name or assign to one? -/
def Act.concernsNames : Act → Bool
  | read _ _ | assign _ _ => true
  | _ => false

/-- Does the step read or write? -/
def Act.concernsStreams : Act → Bool
  | write _ | readLine => true
  | _ => false

/-- A step that has nothing to do with names and leaves the environment alone. -/
theorem Moment.genuine_of_stay {allowed : String → Prop} {act : Act} {before : Machine}
    {ended : Option Machine} (hact : act.concernsNames = false)
    (h : ∀ after, ended = some after → after.environment = before.environment) :
    Moment.Genuine allowed ⟨act, before, ended⟩ := by
  have hmoves : ∀ after, ended = some after →
      before.environment.Moves allowed after.environment := by
    intro after hafter
    rw [h after hafter]
    exact .stay
  cases act with
  | read name found => cases hact
  | assign name value => cases hact
  | _ => exact hmoves

variable {α β : Type} {policy : Policy} {places : Position → Prop}

/-- The step starts and ends in machines as the policy asks. -/
structure Policy.Shows (policy : Policy) (moment : Moment) : Prop where
  before : policy.Holds moment.before
  after : ∀ machine, moment.after = some machine → policy.Holds machine
  genuine : moment.Genuine policy.name

/-- A step of which both ends are given. -/
theorem Policy.shows_other {before after : Machine} (hbefore : policy.Holds before)
    (hafter : policy.Holds after)
    (hmoves : before.environment.Moves policy.name after.environment) :
    policy.Shows ⟨.other, before, some after⟩ := by
  refine ⟨hbefore, ?_, ?_⟩
  · rintro _ ⟨⟩
    exact hafter
  · rintro _ ⟨⟩
    exact hmoves

/-! ### Errors -/

/-- An error that is placed stays the same fault. -/
theorem RuntimeError.fault_locate (error : RuntimeError) (position : Position) :
    (error.locate position).fault = error.fault := by
  unfold RuntimeError.locate
  split <;> rfl

theorem Fault.jump?_of_isOrdinary {fault : Fault} (h : fault.isOrdinary) : fault.jump? = none := by
  cases fault with
  | strayJump word => cases h
  | _ => rfl

/-- The policy accepts the fault, which is no jump without a goal. If it belongs to a place then
the error is at one of the given places. -/
structure RuntimeError.Regular (policy : Policy) (places : Position → Prop)
    (error : RuntimeError) : Prop where
  fault : policy.fault error.fault
  jump : error.fault.jump? = none
  place : error.fault.hasPlace → places error.position

theorem RuntimeError.Regular.unplaced {fault : Fault} (h : fault.isOrdinary)
    (hunknown : places .unknown) : (RuntimeError.unplaced fault).Regular policy places :=
  ⟨policy.wellFormed (Fault.not_isMalformed h), Fault.jump?_of_isOrdinary h, fun _ => hunknown⟩

/-- Errors that have no place yet are placed. -/
theorem RuntimeError.Regular.locate {position : Position} {error : RuntimeError}
    (h : error.Regular policy fun place => place = .unknown ∨ places place)
    (hposition : places position) : (error.locate position).Regular policy places := by
  have hfault := error.fault_locate position
  refine ⟨hfault ▸ h.fault, hfault ▸ h.jump, fun hplace => ?_⟩
  rw [hfault] at hplace
  unfold RuntimeError.locate
  rw [if_pos hplace]
  rcases h.place hplace with hunknown | hknown
  · simp only [hunknown]
    exact hposition
  · unfold Position.orElse
    dsimp only
    split
    · exact hknown
    · exact hposition

/-! ### Steps that leave the environment alone -/

/-- The machine with other streams. -/
def Machine.withConsole (console : Console) (machine : Machine) : Machine :=
  { machine with console }

namespace Eval

/-- The computation neither depends on the streams nor changes them. -/
def Quiet (action : Eval α) : Prop :=
  ∀ (machine : Machine) (console : Console),
    action (machine.withConsole console) = (action machine).mapState (Machine.withConsole console)

/-- A step that leaves the environment and the control context alone and has nothing to do with
the streams. Started in a machine as the policy asks, it leaves one, however it ends. What it
has `made` holds of its value. -/
structure Step (policy : Policy) (places : Position → Prop) (made : α → Prop)
    (action : Eval α) : Prop where
  still : ∀ machine : Machine, policy.Holds machine →
    (action machine).Meets (fun value after => made value ∧ policy.Stays machine after)
      (fun error after => error.Regular policy places ∧ policy.Stays machine after) True
  quiet : action.Quiet

namespace Step

variable {made : α → Prop}

theorem pure {value : α} (h : made value) : Step policy places made (Pure.pure value) :=
  ⟨fun _ hm => ⟨h, hm.stays⟩, fun _ _ => rfl⟩

theorem exhausted : Step policy places made Action.exhausted :=
  ⟨fun _ _ => trivial, fun _ _ => rfl⟩

theorem fail {error : RuntimeError} (h : error.Regular policy places) :
    Step policy places made (Action.fail error) :=
  ⟨fun _ hm => ⟨h, hm.stays⟩, fun _ _ => rfl⟩

theorem gets {view : Machine → α} (hmade : ∀ machine, policy.Holds machine → made (view machine))
    (hview : ∀ machine console, view (Machine.withConsole console machine) = view machine) :
    Step policy places made (Action.gets view) := by
  refine ⟨fun machine hm => ⟨hmade machine hm, hm.stays⟩, fun machine console => ?_⟩
  change Outcome.done _ _ = _
  rw [hview machine console]
  rfl

theorem query {view : Machine → Except Fault α} (hunknown : places .unknown)
    (hok : ∀ machine value, policy.Holds machine → view machine = .ok value → made value)
    (herror : ∀ machine fault, view machine = .error fault → fault.isOrdinary)
    (hview : ∀ machine console, view (Machine.withConsole console machine) = view machine) :
    Step policy places made (Eval.query view) := by
  refine ⟨fun machine hm => ?_, fun machine console => ?_⟩
  · unfold Eval.query
    cases hresult : view machine with
    | ok value => exact ⟨hok machine value hm hresult, hm.stays⟩
    | error fault => exact ⟨.unplaced (herror machine fault hresult) hunknown, hm.stays⟩
  · unfold Eval.query
    rw [hview machine console]
    cases view machine <;> rfl

theorem ofExcept {result : Except Fault α} (hunknown : places .unknown)
    (hok : ∀ value, result = .ok value → made value)
    (herror : ∀ fault, result = .error fault → fault.isOrdinary) :
    Step policy places made (Eval.ofExcept result) := by
  cases result with
  | ok value => exact pure (hok value rfl)
  | error fault => exact fail (.unplaced (herror fault rfl) hunknown)

theorem ofTyped {result : Except TypeFault α} (hunknown : places .unknown)
    (hok : ∀ value, result = .ok value → made value) :
    Step policy places made (Eval.ofTyped result) := by
  cases result with
  | ok value => exact pure (hok value rfl)
  | error fault => exact fail (.unplaced rfl hunknown)

theorem onHeap {action : HeapAction Value} (hunknown : places .unknown)
    (h : action.Respects policy.toHeapPolicy) :
    Step policy places policy.value (Eval.onHeap action) := by
  refine ⟨fun machine hm => ?_, fun machine console => ?_⟩
  · have haction := h machine.heap hm.heap
    simp only [Eval.onHeap]
    cases hran : action machine.heap with
    | done value heap =>
      rw [hran] at haction
      exact ⟨haction.1, ⟨hm.environment, haction.2, hm.returned, hm.functions⟩, rfl, rfl⟩
    | failed fault heap =>
      rw [hran] at haction
      refine ⟨.unplaced haction.1 hunknown, ?_, rfl, rfl⟩
      exact ⟨hm.environment, haction.2, hm.returned, hm.functions⟩
    | outOfFuel => trivial
  · change Eval.onHeap action { machine with console } = _
    simp only [Eval.onHeap]
    cases action machine.heap <;> rfl

theorem updateHeap {change : Heap → Heap}
    (h : ∀ heap : Heap, policy.heap heap → policy.heap (change heap)) :
    Step policy places (fun _ => True) (Eval.updateHeap change) :=
  ⟨fun _ hm => ⟨trivial, ⟨hm.environment, h _ hm.heap, hm.returned, hm.functions⟩, rfl, rfl⟩,
    fun _ _ => rfl⟩

theorem close {declaration : Declaration} (h : policy.Allows declaration) :
    Step policy places policy.value (Eval.close declaration) :=
  ⟨fun _ hm => ⟨policy.close _ hm.environment h,
    ⟨hm.environment, policy.number hm.heap, hm.returned, hm.functions⟩, rfl, rfl⟩, fun _ _ => rfl⟩

end Step

end Eval

/-! ### Single steps of plans -/

namespace Plan

/-- A single step of a plan that obeys the policy. -/
structure Leaf (policy : Policy) (places : Position → Prop) (made : α → Prop)
    (plan : Plan α) : Prop where
  isStep : plan.isStep
  keeps : ∀ machine : Machine, policy.Holds machine →
    (plan.run machine).Meets
      (fun value after => made value ∧ policy.Keeps machine after ∧
        after.control = machine.control)
      (fun error after => error.Regular policy places ∧ policy.Keeps machine after ∧
        after.control = machine.control) True
  genuine : ∀ machine : Machine, policy.Holds machine →
    Moment.Genuine policy.name ⟨plan.act machine, machine, (plan.run machine).state?⟩
  quiet : plan.run.Quiet
  silent : ∀ machine, (plan.act machine).concernsStreams = false

namespace Leaf

variable {made : α → Prop}

/-- A step that leaves the environment alone. -/
theorem of_step {plan : Plan α} (h : plan.run.Step policy places made) (hstep : plan.isStep)
    (hact : ∀ machine, plan.act machine = .other) : plan.Leaf policy places made := by
  refine ⟨hstep, fun machine hm => ?_, fun machine hm => ?_, h.quiet, fun _ => by rw [hact]; rfl⟩
  · refine (h.still machine hm).imp ?_ ?_ id
    · exact fun _ _ hdone => ⟨hdone.1, hdone.2.keeps, hdone.2.control_eq⟩
    · exact fun _ _ hfailed => ⟨hfailed.1, hfailed.2.keeps, hfailed.2.control_eq⟩
  · have hends := (h.still machine hm).imp (fun _ _ hdone => hdone.2.environment_eq)
      (fun _ _ hfailed => hfailed.2.environment_eq) id
    refine Moment.genuine_of_stay (by rw [hact]; rfl) fun after hafter => hends.state? hafter

theorem perform {action : Eval α} (h : action.Step policy places made) :
    (Plan.perform action).Leaf policy places made :=
  of_step h rfl fun _ => rfl

theorem fail {error : RuntimeError} (h : error.Regular policy places) :
    (Plan.fail error).Leaf policy places made :=
  perform (.fail h)

theorem fault {fault : Fault} (h : fault.isOrdinary) (hunknown : places .unknown) :
    (Plan.fault fault).Leaf policy places made :=
  perform (.fail (.unplaced h hunknown))

theorem look {view : Machine → α} (hmade : ∀ machine, policy.Holds machine → made (view machine))
    (hview : ∀ machine console, view (Machine.withConsole console machine) = view machine) :
    (Plan.look view).Leaf policy places made :=
  perform (.gets hmade hview)

theorem fetch {view : Machine → Except Fault α} {held : α → List Value}
    (h : (Eval.query view).Step policy places made) :
    (Plan.fetch view held).Leaf policy places made :=
  of_step h rfl fun _ => rfl

/-- Something is got that is always there. -/
theorem fetchOk {view : Machine → α} {held : α → List Value}
    (hmade : ∀ machine, policy.Holds machine → made (view machine))
    (hview : ∀ machine console, view (Machine.withConsole console machine) = view machine) :
    (Plan.fetch (fun machine => .ok (view machine)) held).Leaf policy places made :=
  of_step (.gets hmade hview) rfl fun _ => rfl

theorem onHeap {changed : List ListRef} {action : HeapAction Value} (hunknown : places .unknown)
    (h : action.Respects policy.toHeapPolicy) :
    (Plan.onHeap changed action).Leaf policy places policy.value :=
  of_step (.onHeap hunknown h) rfl fun _ => rfl

theorem setElement {ref : ListRef} (hlist : policy.value (.list ref)) (position : Nat)
    {value : Value} (hvalue : policy.value value) :
    (Plan.setElement ref position value).Leaf policy places fun _ => True :=
  of_step (.updateHeap fun _ hheap => policy.setElement hheap hlist position hvalue) rfl
    fun _ => rfl

theorem extendList {ref : ListRef} (hlist : policy.value (.list ref)) {extra : Array Value}
    (hextra : ∀ item ∈ extra, policy.value item) :
    (Plan.extendList ref extra).Leaf policy places fun _ => True :=
  of_step (.updateHeap fun _ hheap => policy.extendList hheap hlist hextra) rfl fun _ => rfl

theorem close {declaration : Declaration} (h : policy.Allows declaration) :
    (Plan.close declaration).Leaf policy places policy.value :=
  of_step (.close h) rfl fun _ => rfl

/-- A lookup of a name. -/
theorem read {name : String} {view : Machine → Except Fault Value}
    (h : (Eval.query view).Step policy places policy.value)
    (hview : ∀ machine, view machine = variableValue machine name ∨
      view machine = machine.environment.lookup name) :
    (Plan.read name view).Leaf policy places policy.value := by
  refine ⟨rfl, fun machine hm => ?_, fun machine _ => ⟨hview machine, ?_⟩, h.quiet, fun _ => rfl⟩
  · refine (h.still machine hm).imp ?_ ?_ id
    · exact fun _ _ hdone => ⟨hdone.1, hdone.2.keeps, hdone.2.control_eq⟩
    · exact fun _ _ hfailed => ⟨hfailed.1, hfailed.2.keeps, hfailed.2.control_eq⟩
  · change (Eval.query view machine).state? = _
    unfold Eval.query
    cases view machine <;> rfl

theorem readVariable (name : String) (hunknown : places .unknown) :
    (Plan.read name fun machine => variableValue machine name).Leaf policy places policy.value :=
  read (.query hunknown (fun _ _ hm => policy.variableValue hm) (fun _ _ => variableValue_fault)
    fun _ _ => rfl) fun _ => .inl rfl

theorem readLocal (name : String) (hunknown : places .unknown) :
    (Plan.read name fun machine => machine.environment.lookup name).Leaf policy places
      policy.value :=
  read (.query hunknown (fun _ _ hm => policy.lookup hm.environment) (fun _ _ => lookup_fault)
    fun _ _ => rfl) fun _ => .inr rfl

/-- An assignment to a name. -/
theorem assign (name : String) {value : Value} (h : policy.value value) :
    (Plan.assign name value).Leaf policy places fun _ => True := by
  refine ⟨rfl, fun machine hm => ⟨trivial, ⟨?_, ?_⟩, rfl⟩, fun _ _ => rfl, fun _ _ => rfl,
    fun _ => rfl⟩
  · exact ⟨policy.set name hm.environment h, hm.heap, hm.returned, hm.functions⟩
  · exact machine.environment.set_chain name value

/-- A declaration of a name. -/
theorem declare {name : String} {value : Value} (hname : policy.name name)
    (h : policy.value value) : (Plan.declare name value).Leaf policy places fun _ => True := by
  refine ⟨rfl, fun machine hm => ⟨trivial, ⟨?_, ?_⟩, rfl⟩, fun machine _ => ?_, fun _ _ => rfl,
    fun _ => rfl⟩
  · exact ⟨policy.declareLocal hm.environment hname h, hm.heap, hm.returned, hm.functions⟩
  · exact machine.environment.declareLocal_chain name value
  · rintro _ ⟨⟩
    exact .declare value hname

/-- A step whose errors are placed. -/
theorem located {position : Position} {plan : Plan α} (hposition : places position)
    (h : plan.Leaf policy (fun place => place = .unknown ∨ places place) made) :
    (Plan.located position plan).Leaf policy places made := by
  refine ⟨h.isStep, fun machine hm => ?_, fun machine hm => ?_, fun machine console => ?_,
    h.silent⟩
  · rw [run_located, Outcome.meets_mapError]
    refine (h.keeps machine hm).imp (fun _ _ hdone => hdone) ?_ id
    exact fun _ _ hfailed => ⟨hfailed.1.locate hposition, hfailed.2⟩
  · rw [run_located, Outcome.state?_mapError]
    exact h.genuine machine hm
  · rw [run_located, run_located, h.quiet machine console]
    cases plan.run machine <;> rfl

end Leaf

end Plan

/-! ### Lawful plans -/

/-- Where a plan stands in a program. -/
inductive Mode where
  /-- In an expression, or anywhere else where the control context is left alone. -/
  | calm
  /-- In the body of a function. The machine counts the loops and switches around the place
  `counted`, and statements that are executed here stand at the place `here`. -/
  | inside (counted here : Place)

/-- What a computation that yields a value does to the control context. -/
def Mode.Ends : Mode → Control → Control → Prop
  | calm, before, after => after = before
  | inside _ _, before, after => before.flow = .normal → before.Settled after

/-- What a computation that fails does to the control context. -/
def Mode.Fails : Mode → Control → Control → Prop
  | calm, before, after => after = before
  | inside _ _, before, after => before.flow = .normal → before.Undisturbed after

/-- The mode inside a statement. A loop and a switch have yet to be counted. -/
def Place.enter (place : Place) (statement : Stmt) : Mode :=
  if statement.isLoop || statement.isSwitch then .inside place (place.within statement)
  else .inside (place.within statement) (place.within statement)

/-- What a loop, a block or a switch does to find out how the flow is: it may change the control
context, and knows from the value whether the flow `goes` on normally. -/
structure Eval.Checks (goes : α → Prop) (action : Eval α) : Prop where
  turns : ∀ machine : Machine, ∃ value change, action machine = .done value (machine.turn change) ∧
    machine.control.Passes (change machine.control) ∧
    (goes value → (change machine.control).flow = .normal)
  quiet : action.Quiet

/-- The value of a plan that does nothing but give up values. -/
def Plan.idle? {α : Type} : Plan α → Option α
  | yield value => some value
  | holding _ plan => plan.idle?
  | _ => none

/-- The plan is put together in the ways in which the evaluation of a program is. The errors of
its steps are at the given places, those inside of a further node apart, and what it has `made`
holds of its value. -/
inductive Plan.Lawful (policy : Policy) :
    (Position → Prop) → Mode → {α : Type} → (α → Prop) → Plan α → Prop
  | yield {places : Position → Prop} {α : Type} {made : α → Prop} {value : α} (h : made value) :
    Lawful policy places .calm made (.yield value)
  | andThen {places : Position → Prop} {mode : Mode} {α β : Type} {made : α → Prop}
    {made' : β → Prop} {first : Plan α} {second : α → Plan β}
    (hfirst : Lawful policy places .calm made first)
    (hsecond : ∀ value, made value → Lawful policy places mode made' (second value)) :
    Lawful policy places mode made' (.andThen first second)
  | leaf {places : Position → Prop} {α : Type} {made : α → Prop} {plan : Plan α}
    (h : plan.Leaf policy places made) : Lawful policy places .calm made plan
  | write {places : Position → Prop} (text : String) :
    Lawful policy places .calm (fun _ => True) (.write text)
  | readLine {places : Position → Prop} : Lawful policy places .calm (fun _ => True) .readLine
  | expr {places : Position → Prop} {α : Type} {made : α → Prop} {expr : Expr} {plan : Plan α}
    (hexpr : expr.Everywhere policy.check)
    (h : Lawful policy (Node.expr expr).Accepts .calm made plan) :
    Lawful policy places .calm made (.within (.expr expr) (.located expr.position plan))
  | statement {places : Position → Prop} {α : Type} {made : α → Prop} {place : Place}
    {statement : Stmt} {plan : Plan α} (hstatement : statement.Everywhere policy.check)
    (hplace : place.Holds statement) (hjump : statement.isJump = false)
    (h : Lawful policy (Node.statement statement).Accepts (place.enter statement) made plan) :
    Lawful policy places (.inside place place) made (.within (.statement statement) plan)
  /-- A jump fails if it has no goal in the text. -/
  | jump {places : Position → Prop} {place : Place} {statement : Stmt} {hasGoal : Control → Bool}
    {flow : Flow} {word : Keyword} {position : Position}
    (hstatement : statement.Everywhere policy.check) (hplace : place.Holds statement)
    (hsite : position ∈ statement.sites)
    (hgoal : ∀ machine, place.Fits machine → Event.stray? ⟨place, statement, machine⟩ =
      if hasGoal machine.control then none else some word) :
    Lawful policy places (.inside place place) (fun _ => True)
      (.within (.statement statement) (.jump hasGoal flow ⟨.strayJump word, position⟩))
  | holding {places : Position → Prop} {mode : Mode} {α : Type} {made : α → Prop} {plan : Plan α}
    (values : List Value) (h : Lawful policy places mode made plan) :
    Lawful policy places mode made (.holding values plan)
  | owning {places : Position → Prop} {mode : Mode} {α : Type} {made : α → Prop} {plan : Plan α}
    (values : List Value) (h : Lawful policy places mode made plan) :
    Lawful policy places mode made (.owning values plan)
  | inBlock {places : Position → Prop} {mode : Mode} {α : Type} {made : α → Prop} {plan : Plan α}
    (h : Lawful policy places mode made plan) : Lawful policy places mode made (.inBlock plan)
  /-- A loop or a switch is counted. -/
  | inControl {places : Position → Prop} {α : Type} {made : α → Prop} {counted here : Place}
    {enter exit : Control → Control} {plan : Plan α} (hbracket : Control.Bracket enter exit)
    (hfits : ∀ machine, counted.Fits machine → here.Fits (machine.turn enter))
    (h : Lawful policy places (.inside here here) made plan) :
    Lawful policy places (.inside counted here) made (.inControl enter exit plan)
  | inCall {places : Position → Prop} {α : Type} {closure : Closure} {arguments : List Value}
    {body : Plan α} (hclosure : policy.value (.function closure))
    (harguments : ∀ value ∈ arguments, policy.value value)
    (h : Lawful policy places
      (.inside (.start closure.declaration) (.start closure.declaration)) (fun _ => True) body) :
    Lawful policy places .calm policy.value (.inCall closure arguments
      (.andThen body fun _ => .look fun machine => machine.control.result))
  /-- After a statement it is checked how it has left the flow. -/
  | afterwards {places : Position → Prop} {α β γ : Type} {made : γ → Prop} {here : Place}
    {first : Plan α} {action : Eval β} {goes : β → Prop} {second : β → Plan γ}
    (hfirst : Lawful policy places (.inside here here) (fun _ => True) first)
    (hchecks : action.Checks goes)
    (hgoes : ∀ value, goes value → Lawful policy places (.inside here here) made (second value))
    (hstops : ∀ value, ¬ goes value → ∃ result, (second value).idle? = some result ∧ made result) :
    Lawful policy places (.inside here here) made
      (.andThen first fun _ => .andThen (.perform action) second)
  | endSwitch {places : Position → Prop} {α : Type} {counted here : Place} {plan : Plan α}
    (h : Lawful policy places (.inside counted here) (fun _ => True) plan) :
    Lawful policy places (.inside counted here) (fun _ => True)
      (.andThen plan fun _ => .updateControl Control.endSwitch)
  | setReturn {places : Position → Prop} {counted here : Place} {value : Value}
    (h : policy.value value) :
    Lawful policy places (.inside counted here) (fun _ => True)
      (.updateControl fun control => control.setReturn value)
  | calm {places : Position → Prop} {α : Type} {made : α → Prop} {counted here : Place}
    {plan : Plan α} (h : Lawful policy places .calm made plan) :
    Lawful policy places (.inside counted here) made plan

namespace Plan

theorem run_of_idle {plan : Plan α} {value : α} (h : plan.idle? = some value) :
    plan.run = Pure.pure value := by
  induction plan with
  | yield found =>
    cases h
    rfl
  | holding _ plan ih => exact ih h
  | _ => cases h

theorem record_of_idle {κ ρ : Type} (recorder : Recorder κ ρ) {plan : Plan α} {value : α}
    (h : plan.idle? = some value) (place : κ) (machine : Machine) :
    plan.record recorder place machine = [] := by
  induction plan with
  | yield found => rfl
  | holding _ plan ih => exact ih h
  | _ => cases h

end Plan

namespace Eval

theorem checks_isNormal :
    Checks (· = true) (Action.gets fun machine : Machine => machine.control.isNormal) := by
  refine ⟨fun machine => ⟨_, id, rfl, .refl _, fun hnormal => ?_⟩, fun _ _ => rfl⟩
  simpa [Control.isNormal] using hnormal

theorem checks_endIteration : Checks (· = false) Eval.endIteration :=
  ⟨fun machine => ⟨_, Control.endIteration, rfl, machine.control.passes_endIteration,
    Control.endIteration_normal⟩, fun _ _ => rfl⟩

end Eval

namespace Plan.Lawful

variable {mode : Mode} {made : α → Prop} {plan : Plan α}

theorem bind {made' : β → Prop} {second : α → Plan β} (h : plan.Lawful policy places .calm made)
    (h' : ∀ value, made value → (second value).Lawful policy places mode made') :
    (plan >>= second).Lawful policy places mode made' :=
  .andThen h h'

/-- What follows a computation of whose value nothing need be known. -/
theorem seq {made' : β → Prop} {second : α → Plan β}
    (h : plan.Lawful policy places .calm fun _ => True)
    (h' : ∀ value, (second value).Lawful policy places mode made') :
    (plan >>= second).Lawful policy places mode made' :=
  .andThen h fun value _ => h' value

theorem pure {value : α} (h : made value) :
    (Pure.pure value : Plan α).Lawful policy places .calm made :=
  .yield h

theorem ite {condition : Prop} [Decidable condition] {yes no : Plan α}
    (hyes : yes.Lawful policy places mode made) (hno : no.Lawful policy places mode made) :
    (if condition then yes else no).Lawful policy places mode made := by
  split
  · exact hyes
  · exact hno

end Plan.Lawful

/-! ### What lawful plans do -/

theorem Mode.Fails.refl {mode : Mode} (control : Control) : mode.Fails control control := by
  cases mode with
  | calm => rfl
  | inside counted here => exact Control.Undisturbed.refl

/-- Started in a machine as the policy asks, the plan leaves one with the same active chain,
however it ends. What it has `made` holds of its value, its faults are those that the policy
accepts, and it leaves the control context as its mode says. -/
def Plan.Obeys (policy : Policy) (mode : Mode) (made : α → Prop) (plan : Plan α) : Prop :=
  ∀ machine : Machine, policy.Holds machine →
    (plan.run machine).Meets
      (fun value after => made value ∧ policy.Keeps machine after ∧
        mode.Ends machine.control after.control)
      (fun error after => policy.fault error.fault ∧ policy.Keeps machine after ∧
        mode.Fails machine.control after.control) True

namespace Plan.Obeys

variable {mode : Mode} {made : α → Prop} {plan : Plan α} {counted here counted' here' : Place}

/-- A plan that leaves the control context alone, and what follows it. -/
theorem andThen {made' : β → Prop} {second : α → Plan β} (h : plan.Obeys policy .calm made)
    (h' : ∀ value, made value → (second value).Obeys policy mode made') :
    (plan.andThen second).Obeys policy mode made' := by
  intro machine hm
  refine (Action.meets_bind _ _ _).2 ((h machine hm).imp ?_ ?_ id)
  · rintro value middle ⟨hvalue, hmiddle, hcontrol⟩
    have hsame : middle.control = machine.control := hcontrol
    refine (h' value hvalue middle hmiddle.toHolds).imp ?_ ?_ id
    · exact fun _ _ hdone => ⟨hdone.1, hmiddle.trans hdone.2.1, hsame ▸ hdone.2.2⟩
    · exact fun _ _ hfailed => ⟨hfailed.1, hmiddle.trans hfailed.2.1, hsame ▸ hfailed.2.2⟩
  · rintro error after ⟨hfault, hafter, hcontrol⟩
    have hsame : after.control = machine.control := hcontrol
    exact ⟨hfault, hafter, hsame ▸ .refl _⟩

theorem leaf (h : plan.Leaf policy places made) : plan.Obeys policy .calm made := by
  intro machine hm
  refine (h.keeps machine hm).imp (fun _ _ hdone => hdone) ?_ id
  exact fun _ _ hfailed => ⟨hfailed.1.fault, hfailed.2⟩

theorem look (view : Machine → α) : (Plan.look view).Obeys policy .calm fun _ => True :=
  fun _ hm => ⟨trivial, hm.keeps, rfl⟩

theorem onConsole {action : Action Fault Console α}
    (h : ∀ console, (action console).Meets (fun value _ => made value)
      (fun fault _ => fault.isOrdinary) True) (hrun : plan.run = Eval.onConsole action) :
    plan.Obeys policy .calm made := by
  intro machine hm
  have hconsole : ∀ console, policy.Keeps machine { machine with console } :=
    fun _ => ⟨⟨hm.environment, hm.heap, hm.returned, hm.functions⟩, rfl⟩
  rw [hrun]
  refine Eval.meets_onConsole.2 ((h machine.console).imp ?_ ?_ id)
  · exact fun _ console hvalue => ⟨hvalue, hconsole console, rfl⟩
  · exact fun _ console hfault =>
      ⟨policy.wellFormed (Fault.not_isMalformed hfault), hconsole console, rfl⟩

theorem located (position : Position) (h : plan.Obeys policy mode made) :
    (Plan.located position plan).Obeys policy mode made := by
  intro machine hm
  rw [run_located, Outcome.meets_mapError]
  refine (h machine hm).imp (fun _ _ hdone => hdone) ?_ id
  exact fun error _ hfailed => ⟨(error.fault_locate position).symm ▸ hfailed.1, hfailed.2⟩

theorem inBlock (h : plan.Obeys policy mode made) : (Plan.inBlock plan).Obeys policy mode made := by
  intro machine hm
  rw [run_inBlock, Outcome.meets_mapState]
  refine (h _ hm.enterBlock).imp ?_ ?_ id
  · exact fun _ _ hdone => ⟨hdone.1, hm.leaveBlock hdone.2.1, hdone.2.2⟩
  · exact fun _ _ hfailed => ⟨hfailed.1, hm.leaveBlock hfailed.2.1, hfailed.2.2⟩

theorem inControl {enter exit : Control → Control} (hbracket : Control.Bracket enter exit)
    (h : plan.Obeys policy (.inside counted here) made) :
    (Plan.inControl enter exit plan).Obeys policy (.inside counted' here') made := by
  intro machine hm
  have henter : policy.value (enter machine.control).returned :=
    (hbracket.enter_returned _).symm ▸ hm.returned
  have hback : ∀ after : Machine, policy.Keeps (machine.turn enter) after →
      policy.Keeps machine (after.turn exit) := fun after hafter =>
    ⟨hafter.toHolds.turn ((hbracket.exit_returned _).symm ▸ hafter.returned), hafter.chain⟩
  have hflow : machine.control.flow = .normal → (machine.turn enter).control.flow = .normal :=
    (hbracket.enter_flow machine.control).trans
  rw [run_inControl, Outcome.meets_mapState]
  refine (h _ (hm.turn henter)).imp ?_ ?_ id
  · exact fun _ after hdone => ⟨hdone.1, hback after hdone.2.1,
      fun hnormal => hbracket.settled (hdone.2.2 (hflow hnormal))⟩
  · exact fun _ after hfailed => ⟨hfailed.1, hback after hfailed.2.1,
      fun hnormal => hbracket.undisturbed (hfailed.2.2 (hflow hnormal))⟩

/-- The body of a function, and the value that it returns. -/
theorem result (h : plan.Obeys policy mode made) :
    (plan.andThen fun _ => Plan.look fun machine => machine.control.result).Obeys policy mode
      policy.value := by
  intro machine hm
  refine (Action.meets_bind _ _ _).2 ((h machine hm).imp ?_ (fun _ _ hfailed => hfailed) id)
  exact fun _ after hdone => ⟨policy.result hdone.2.1.toHolds, hdone.2⟩

/-- A call gives the caller's chain and control context back, whatever its body does with its
own. -/
theorem inCall {closure : Closure} (hclosure : policy.value (.function closure))
    {arguments : List Value} (harguments : ∀ value ∈ arguments, policy.value value)
    (h : plan.Obeys policy mode made) :
    (Plan.inCall closure arguments plan).Obeys policy .calm made := by
  intro machine hm
  rw [run_inCall, Outcome.meets_mapState]
  refine (h _ (hm.inBody hclosure harguments)).imp ?_ ?_ id
  · exact fun _ after hdone => ⟨hdone.1, hm.leaveBody hdone.2.1.toHolds, rfl⟩
  · exact fun _ after hfailed => ⟨hfailed.1, hm.leaveBody hfailed.2.1.toHolds, rfl⟩

/-- What is done after a statement may depend on how the statement has left the flow. -/
theorem afterwards {γ : Type} {made : γ → Prop} {action : Eval β} {goes : β → Prop}
    {second : β → Plan γ} (h : plan.Obeys policy (.inside counted here) fun _ => True)
    (hchecks : action.Checks goes)
    (hgoes : ∀ value, goes value → (second value).Obeys policy (.inside counted here) made)
    (hstops : ∀ value, ¬ goes value → ∃ result, (second value).idle? = some result ∧
      made result) :
    (plan.andThen fun _ => (perform action).andThen second).Obeys policy
      (.inside counted here) made := by
  intro machine hm
  refine (Action.meets_bind _ _ _).2 ((h machine hm).imp ?_ (fun _ _ hfailed => hfailed) id)
  rintro _ middle ⟨_, hmiddle, hends⟩
  obtain ⟨value, change, hran, hpasses, hnormal⟩ := hchecks.turns middle
  have hturned : policy.Keeps machine (middle.turn change) :=
    ⟨hmiddle.toHolds.turn (hpasses.returned.symm ▸ hmiddle.returned), hmiddle.chain⟩
  have hsettled : machine.control.flow = .normal →
      machine.control.Settled (middle.turn change).control :=
    fun hflow => (hends hflow).passes hpasses
  refine (Action.meets_bind _ _ _).2 ?_
  change (action middle).Meets _ _ _
  rw [hran]
  by_cases hgo : goes value
  · have hflow := hnormal hgo
    refine (hgoes value hgo _ hturned.toHolds).imp ?_ ?_ id
    · exact fun _ _ hdone => ⟨hdone.1, hturned.trans hdone.2.1, fun hstart =>
        ((hsettled hstart).undisturbed hflow).trans_settled (hdone.2.2 hflow)⟩
    · exact fun _ _ hfailed => ⟨hfailed.1, hturned.trans hfailed.2.1, fun hstart =>
        ((hsettled hstart).undisturbed hflow).trans (hfailed.2.2 hflow)⟩
  · obtain ⟨result, hidle, hmade⟩ := hstops value hgo
    change ((second value).run (middle.turn change)).Meets _ _ _
    rw [run_of_idle hidle]
    exact ⟨hmade, hturned, hsettled⟩

/-- A statement, and the end of the switch that it is inside. -/
theorem endSwitch (h : plan.Obeys policy (.inside counted here) fun _ => True) :
    (plan.andThen fun _ => updateControl Control.endSwitch).Obeys policy (.inside counted here)
      fun _ => True := by
  intro machine hm
  refine (Action.meets_bind _ _ _).2 ((h machine hm).imp ?_ (fun _ _ hfailed => hfailed) id)
  rintro _ middle ⟨_, hmiddle, hends⟩
  have hpasses := middle.control.passes_endSwitch
  refine ⟨trivial, ⟨hmiddle.toHolds.turn ?_, hmiddle.chain⟩, fun hflow => ?_⟩
  · exact hpasses.returned.symm ▸ hmiddle.returned
  · exact (hends hflow).passes hpasses

theorem setFlow (flow : Flow) :
    (updateControl fun control => control.setFlow flow).Obeys policy (.inside counted here)
      fun _ => True :=
  fun machine hm => ⟨trivial, ⟨⟨hm.environment, hm.heap, hm.returned, hm.functions⟩, rfl⟩,
    fun _ => machine.control.settled_setFlow flow⟩

theorem fail {error : RuntimeError} (h : policy.fault error.fault) :
    (Plan.fail error).Obeys policy mode made :=
  fun _ hm => ⟨h, hm.keeps, .refl _⟩

theorem jump (hasGoal : Control → Bool) (flow : Flow) (word : Keyword) (position : Position) :
    (Plan.jump hasGoal flow ⟨.strayJump word, position⟩).Obeys policy (.inside counted here)
      fun _ => True := by
  refine andThen (.look fun machine => hasGoal machine.control) fun goal _ => ?_
  split
  · exact .setFlow flow
  · exact .fail (policy.wellFormed rfl)

theorem setReturn {value : Value} (h : policy.value value) :
    (updateControl fun control => control.setReturn value).Obeys policy (.inside counted here)
      fun _ => True :=
  fun machine hm => ⟨trivial, ⟨⟨hm.environment, hm.heap, h, hm.functions⟩, rfl⟩,
    fun _ => machine.control.settled_setReturn value⟩

/-- What leaves the control context alone may stand in the place of a statement. -/
theorem calm (h : plan.Obeys policy .calm made) :
    plan.Obeys policy (.inside counted here) made := by
  intro machine hm
  refine (h machine hm).imp ?_ ?_ id
  · rintro value after ⟨hvalue, hafter, hcontrol⟩
    have hsame : after.control = machine.control := hcontrol
    exact ⟨hvalue, hafter, fun hflow => hsame ▸ (Control.Undisturbed.refl hflow).settled⟩
  · rintro error after ⟨hfault, hafter, hcontrol⟩
    have hsame : after.control = machine.control := hcontrol
    exact ⟨hfault, hafter, fun hflow => hsame.symm ▸ Control.Undisturbed.refl hflow⟩

end Plan.Obeys

/-- Lawful plans obey the policy. -/
theorem Plan.Lawful.sound {mode : Mode} {made : α → Prop} {plan : Plan α}
    (h : plan.Lawful policy places mode made) : plan.Obeys policy mode made := by
  induction h with
  | yield h => exact fun machine hm => ⟨h, hm.keeps, rfl⟩
  | andThen _ _ ihfirst ihsecond => exact ihfirst.andThen ihsecond
  | leaf h => exact .leaf h
  | write text => exact .onConsole (Console.write_fault text) rfl
  | readLine => exact .onConsole Console.readLine_fault rfl
  | expr _ _ ih => exact ih.located _
  | @statement _ _ _ place statement _ _ _ _ _ ih =>
    unfold Place.enter at ih
    split at ih
    · exact ih
    · exact ih
  | jump => exact .jump _ _ _ _
  | holding _ _ ih => exact ih
  | owning _ _ ih => exact ih
  | inBlock _ ih => exact ih.inBlock
  | inControl hbracket _ _ ih => exact .inControl hbracket ih
  | inCall hclosure harguments _ ih => exact .inCall hclosure harguments ih.result
  | afterwards _ hchecks _ hstops ihfirst ihgoes => exact ihfirst.afterwards hchecks ihgoes hstops
  | endSwitch _ ih => exact ih.endSwitch
  | setReturn h => exact .setReturn h
  | calm _ ih => exact ih.calm

/-! ### The steps of lawful plans -/

/-- Started in a machine as the policy asks, all steps of the plan are as the policy asks. -/
def Plan.Shown (policy : Policy) (plan : Plan α) : Prop :=
  ∀ machine : Machine, policy.Holds machine → ∀ moment ∈ plan.moments machine, policy.Shows moment

namespace Plan.Shown

variable {mode : Mode} {made : α → Prop} {plan : Plan α}

theorem andThen {second : α → Plan β} (h : plan.Shown policy) (hobeys : plan.Obeys policy mode made)
    (h' : ∀ value, made value → (second value).Shown policy) :
    (plan.andThen second).Shown policy := by
  intro machine hm moment hmoment
  rcases mem_record_andThen.1 hmoment with hmoment | ⟨value, middle, hran, hmoment⟩
  · exact h machine hm moment hmoment
  · have hmiddle := hobeys machine hm
    rw [hran] at hmiddle
    exact h' value hmiddle.1 middle hmiddle.2.1.toHolds moment hmoment

theorem step (hobeys : plan.Obeys policy mode made) (hstep : plan.isStep)
    (hgenuine : ∀ machine, policy.Holds machine →
      Moment.Genuine policy.name ⟨plan.act machine, machine, (plan.run machine).state?⟩) :
    plan.Shown policy := by
  intro machine hm moment hmoment
  unfold moments at hmoment
  rw [record_of_isStep _ hstep] at hmoment
  cases List.mem_singleton.1 hmoment
  refine ⟨hm, fun after hafter => ?_, hgenuine machine hm⟩
  exact ((hobeys machine hm).imp (fun _ _ hdone => hdone.2.1.toHolds)
    (fun _ _ hfailed => hfailed.2.1.toHolds) id).state? hafter

/-- A step that leaves the environment alone. -/
theorem still (hstep : plan.isStep) (hact : ∀ machine, (plan.act machine).concernsNames = false)
    (h : ∀ machine, policy.Holds machine → (plan.run machine).Meets
      (fun _ after => policy.Holds after ∧ after.environment = machine.environment)
      (fun _ after => policy.Holds after ∧ after.environment = machine.environment) True) :
    plan.Shown policy := by
  intro machine hm moment hmoment
  unfold moments at hmoment
  rw [record_of_isStep _ hstep] at hmoment
  cases List.mem_singleton.1 hmoment
  have hends := h machine hm
  exact ⟨hm, fun after hafter => (hends.state? hafter).1,
    Moment.genuine_of_stay (hact machine) fun after hafter => (hends.state? hafter).2⟩

/-- A change of the control context. -/
theorem turn {action : Eval α}
    (h : ∀ machine, policy.Holds machine → ∃ value change,
      action machine = .done value (machine.turn change) ∧
        policy.value (change machine.control).returned) :
    (perform action).Shown policy := by
  refine still rfl (fun _ => rfl) fun machine hm => ?_
  obtain ⟨value, change, hran, hreturned⟩ := h machine hm
  change (action machine).Meets _ _ _
  rw [hran]
  exact ⟨hm.turn hreturned, rfl⟩

theorem look (view : Machine → α) : (Plan.look view).Shown policy :=
  still rfl (fun _ => rfl) fun _ hm => ⟨hm, rfl⟩

theorem within (node : Node) (h : plan.Shown policy) : (Plan.within node plan).Shown policy := by
  intro machine hm moment hmoment
  have hmem : moment ∈ plan.moments machine := by
    simpa [moments, record, Recorder.moments] using hmoment
  exact h machine hm moment hmem

theorem jump (hasGoal : Control → Bool) (flow : Flow) (word : Keyword) (position : Position) :
    (Plan.jump hasGoal flow ⟨.strayJump word, position⟩).Shown policy := by
  refine andThen (.look _) (.look fun machine => hasGoal machine.control) fun goal _ => ?_
  split
  · exact .turn fun _ hm => ⟨(), (·.setFlow flow), rfl, hm.returned⟩
  · exact .still rfl (fun _ => rfl) fun _ hm => ⟨hm, rfl⟩

/-- What follows a check of the flow. -/
theorem check {goes : α → Prop} {action : Eval α} {second : α → Plan β} {made : β → Prop}
    (h : action.Checks goes) (hgoes : ∀ value, goes value → (second value).Shown policy)
    (hstops : ∀ value, ¬ goes value → ∃ result, (second value).idle? = some result ∧
      made result) :
    ((perform action).andThen second).Shown policy := by
  have hreturned : ∀ machine, policy.Holds machine → ∃ value change,
      action machine = .done value (machine.turn change) ∧
        policy.value (change machine.control).returned := by
    intro machine hm
    obtain ⟨value, change, hran, hpasses, _⟩ := h.turns machine
    exact ⟨value, change, hran, hpasses.returned.symm ▸ hm.returned⟩
  intro machine hm moment hmoment
  rcases mem_record_andThen.1 hmoment with hmoment | ⟨value, middle, hran, hmoment⟩
  · exact turn hreturned machine hm moment hmoment
  · obtain ⟨_, change, hturned, hvalue⟩ := hreturned machine hm
    cases hturned.symm.trans hran
    by_cases hgo : goes value
    · exact hgoes value hgo _ (hm.turn hvalue) moment hmoment
    · obtain ⟨result, hidle, _⟩ := hstops value hgo
      rw [record_of_idle _ hidle] at hmoment
      cases hmoment

/-- A plan between a change of the machine and the change back. -/
theorem bracket {machine inside : Machine} {back : Machine → Machine} {moment : Moment}
    (h : plan.Shown policy) (hobeys : plan.Obeys policy mode made) (hm : policy.Holds machine)
    (hinside : policy.Holds inside)
    (henter : machine.environment.Moves policy.name inside.environment)
    (hback : ∀ after, policy.Keeps inside after → policy.Holds (back after) ∧
      after.environment.Moves policy.name (back after).environment)
    (hmoment : moment ∈ Recorder.moments.bracket () machine inside (plan.moments inside)
      (plan.run inside).state? back) :
    policy.Shows moment := by
  rcases Recorder.mem_bracket.1 hmoment with hmoment | hmoment | ⟨after, hafter, hmoment⟩
  · cases List.mem_singleton.1 hmoment
    exact policy.shows_other hm hinside henter
  · exact h inside hinside moment hmoment
  · cases List.mem_singleton.1 hmoment
    have hkeeps : policy.Keeps inside after :=
      ((hobeys inside hinside).imp (fun _ _ hdone => hdone.2.1)
        (fun _ _ hfailed => hfailed.2.1) id).state? hafter
    exact policy.shows_other hkeeps.toHolds (hback after hkeeps).1 (hback after hkeeps).2

end Plan.Shown

/-- All steps of lawful plans are as the policy asks. -/
theorem Plan.Lawful.shows {mode : Mode} {made : α → Prop} {plan : Plan α}
    (h : plan.Lawful policy places mode made) : plan.Shown policy := by
  induction h with
  | yield h => exact fun machine hm moment hmoment => nomatch hmoment
  | andThen hfirst _ ihfirst ihsecond => exact ihfirst.andThen hfirst.sound ihsecond
  | leaf h => exact .step (.leaf h) h.isStep h.genuine
  | write text => exact .still rfl (fun _ => rfl) fun _ hm => hm.onConsole _
  | readLine => exact .still rfl (fun _ => rfl) fun _ hm => hm.onConsole _
  | expr _ _ ih => exact .within _ ih
  | statement _ _ _ _ ih => exact .within _ ih
  | jump => exact .within _ (.jump _ _ _ _)
  | holding _ _ ih => exact ih
  | owning _ _ ih => exact ih
  | inBlock hplan ih =>
    intro machine hm moment hmoment
    refine ih.bracket hplan.sound hm hm.enterBlock .push (fun after hafter => ?_) hmoment
    exact ⟨(hm.leaveBlock hafter).toHolds, .leave _⟩
  | @inControl _ _ _ _ _ enter exit _ hbracket _ hplan ih =>
    intro machine hm moment hmoment
    have henter : policy.Holds (machine.turn enter) :=
      hm.turn ((hbracket.enter_returned _).symm ▸ hm.returned)
    refine ih.bracket hplan.sound hm henter .stay (fun after hafter => ?_) hmoment
    exact ⟨hafter.toHolds.turn ((hbracket.exit_returned _).symm ▸ hafter.returned), .stay⟩
  | inCall hclosure harguments hbody ih =>
    intro machine hm moment hmoment
    have hresult := ih.andThen hbody.sound fun _ _ => .look fun machine => machine.control.result
    have henter := hm.inBody hclosure harguments
    refine hresult.bracket (hbody.sound.result) hm henter ?_ (fun after hafter => ?_) hmoment
    · exact .enter _ _ (policy.function hclosure).parameters
    · exact ⟨(hm.leaveBody hafter.toHolds).toHolds, .leave _⟩
  | afterwards hfirst hchecks _ hstops ihfirst ihgoes =>
    exact ihfirst.andThen hfirst.sound fun _ _ => .check hchecks ihgoes hstops
  | endSwitch hplan ih =>
    refine ih.andThen hplan.sound fun _ _ => .turn fun machine hm =>
      ⟨(), Control.endSwitch, rfl, ?_⟩
    exact machine.control.passes_endSwitch.returned.symm ▸ hm.returned
  | @setReturn _ _ _ value h => exact .turn fun _ _ => ⟨(), (·.setReturn value), rfl, h⟩
  | calm _ ih => exact ih

end Betty
