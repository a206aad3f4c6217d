import Betty.Proofs.Outcome
import Betty.Run

/-!
# What can be seen of a run

A plan can be run and recorded at once. What is recorded is a parameter: something of every
step, with the machine before it and the machine after it, and something where the evaluation
of a node starts and ends. All of it is kept however the computation ends, also if it is cut
off, so a run that does not end can be seen as well.

## Main definitions

* `Machine.enterBlock`, `Machine.turn`, `Machine.inBody`: the machine in a block, with another
  control context, and in the body of a function.
* `Act`: what a step does to names and streams.
* `Recorder`, `Plan.record`: what is to be recorded, and what is recorded of a run.
* `Plan.moments`: the steps.
* `Plan.watch`: the statements that are executed, at their places.
* `Plan.passages`: the nodes that an error passes through.
* `Plan.events`: what is read and written.
-/

namespace Betty

/-! ### Machines with something around them -/

namespace Machine

/-- The machine in a new block. -/
def enterBlock (machine : Machine) : Machine :=
  { machine with environment := machine.environment.push }

/-- The machine after a block. -/
def leaveBlock (machine : Machine) : Machine :=
  { machine with environment := machine.environment.pop }

/-- The machine with another control context. -/
def turn (change : Control → Control) (machine : Machine) : Machine :=
  { machine with control := change machine.control }

/-- The machine in which the body of a function starts. -/
def inBody (machine : Machine) (closure : Closure) (arguments : List Value) : Machine :=
  { machine with
    control := .initial
    environment := machine.environment.inBody closure arguments }

/-- The machine after a call whose body has left the given one: the caller has its chain and
its control back. -/
def leaveBody (caller after : Machine) : Machine :=
  { after with
    control := caller.control
    environment := after.environment.leaveCall caller.environment.chain }

end Machine

namespace Plan

variable {α β : Type}

theorem run_andThen (first : Plan α) (second : α → Plan β) (machine : Machine) :
    (first.andThen second).run machine = match first.run machine with
      | .done value middle => (second value).run middle
      | .failed error after => .failed error after
      | .outOfFuel => .outOfFuel := by
  change Action.bind first.run _ machine = _
  unfold Action.bind
  cases first.run machine <;> rfl

theorem run_inBlock (plan : Plan α) (machine : Machine) :
    (inBlock plan).run machine = (plan.run machine.enterBlock).mapState Machine.leaveBlock := by
  change Eval.ensuring plan.run _ machine.enterBlock = _
  unfold Eval.ensuring
  cases plan.run machine.enterBlock <;> rfl

theorem run_inControl (enter exit : Control → Control) (plan : Plan α) (machine : Machine) :
    (inControl enter exit plan).run machine =
      (plan.run (machine.turn enter)).mapState (Machine.turn exit) := by
  change Eval.ensuring plan.run _ (machine.turn enter) = _
  unfold Eval.ensuring
  cases plan.run (machine.turn enter) <;> rfl

theorem run_inCall (closure : Closure) (arguments : List Value) (plan : Plan α)
    (machine : Machine) :
    (inCall closure arguments plan).run machine =
      (plan.run (machine.inBody closure arguments)).mapState machine.leaveBody := by
  change Eval.ensuring plan.run _ (machine.inBody closure arguments) = _
  unfold Eval.ensuring
  cases plan.run (machine.inBody closure arguments) <;> rfl

theorem run_located (position : Position) (plan : Plan α) (machine : Machine) :
    (located position plan).run machine =
      (plan.run machine).mapError fun error => error.locate position := by
  change Eval.located position plan.run machine = _
  unfold Eval.located
  cases plan.run machine <;> rfl

end Plan

/-- A call that is not refused does what the body does. -/
theorem callFunction_meets {fuel : Nat} {closure : Closure} {arguments : List Value}
    {machine : Machine} {done : Value → Machine → Prop} {failed : RuntimeError → Machine → Prop}
    {cut : Prop}
    (hbody : (execute fuel closure.declaration.body (machine.inBody closure arguments)).Meets
      (fun _ after => done after.control.result (machine.leaveBody after))
      (fun error after => failed error (machine.leaveBody after)) cut)
    (hrefused : ∀ error, failed error machine) :
    (callFunction (fuel + 1) closure arguments machine).Meets done failed cut := by
  rw [callFunction, Plan.callFunction]
  split
  · rw [Plan.run_inCall, Outcome.meets_mapState]
    exact (Action.meets_bind _ _ _).2 hbody
  · exact hrefused _

theorem Eval.meets_onConsole {α : Type} {action : Action Fault Console α} {machine : Machine}
    {done : α → Machine → Prop} {failed : RuntimeError → Machine → Prop} {cut : Prop} :
    (Eval.onConsole action machine).Meets done failed cut ↔
      (action machine.console).Meets (fun value console => done value { machine with console })
        (fun fault console => failed (.unplaced fault) { machine with console }) cut := by
  simp only [Eval.onConsole]
  cases action machine.console <;> rfl

/-! ### Recording -/

/-- What a step does to the names and to the streams. -/
inductive Act where
  /-- The value of a name is looked up, with the result `found`. -/
  | read (name : String) (found : Except Fault Value)
  /-- A value is assigned to a name. -/
  | assign (name : String) (value : Value)
  /-- A text is written, if there is room for it. -/
  | write (text : String)
  /-- A line is read. -/
  | readLine
  /-- Anything else. -/
  | other

/-- What is to be recorded. What is known of the place where a computation stands is of the
type `κ`. -/
structure Recorder (κ ρ : Type) where
  /-- A step, with the machine before it and, unless it is cut off, the one after it. -/
  step : κ → Act → Machine → Option Machine → List ρ
  /-- The evaluation of a node starts. -/
  enter : κ → Node → Machine → List ρ
  /-- The evaluation of a node has ended, with an error or without one. -/
  leave : κ → Node → Option RuntimeError → List ρ
  /-- The place inside a node. -/
  inside : κ → Node → κ
  /-- The place inside the body of a function that is called. -/
  call : κ → Declaration → κ

variable {κ ρ : Type}

/-- What is recorded of a change of the machine, of a computation after it, and of the change
back that follows however the computation ends. -/
def Recorder.bracket (recorder : Recorder κ ρ) (place : κ) (before inside : Machine)
    (records : List ρ) (ended : Option Machine) (back : Machine → Machine) : List ρ :=
  recorder.step place .other before (some inside) ++ records ++
    ended.toList.flatMap fun after => recorder.step place .other after (some (back after))

namespace Plan

variable {α β : Type}

/-- What the step does to names and streams. -/
def act {α : Type} : Plan α → Machine → Act
  | read name view, machine => .read name (view machine)
  | assign name value, _ => .assign name value
  | write text, _ => .write text
  | readLine, _ => .readLine
  | located _ plan, machine => plan.act machine
  | _, _ => .other

/-- Is this a single step, whose errors may be placed? -/
def isStep {α : Type} : Plan α → Bool
  | perform _ | read _ _ | fetch _ _ | onHeap _ _ | setElement _ _ _ | extendList _ _ | close _
  | assign _ _ | declare _ _ | write _ | readLine => true
  | located _ plan => plan.isStep
  | _ => false

/-- What is recorded of a run of the plan. -/
def record {α : Type} (recorder : Recorder κ ρ) : Plan α → κ → Machine → List ρ
  | yield _, _, _ => []
  | andThen first second, place, machine =>
    first.record recorder place machine ++
      match first.run machine with
      | .done value middle => (second value).record recorder place middle
      | _ => []
  | inControl enter exit plan, place, machine =>
    let inside := machine.turn enter
    recorder.bracket place machine inside (plan.record recorder place inside)
      (plan.run inside).state? (Machine.turn exit)
  | inBlock plan, place, machine =>
    let inside := machine.enterBlock
    recorder.bracket place machine inside (plan.record recorder place inside)
      (plan.run inside).state? Machine.leaveBlock
  | inCall closure arguments plan, place, machine =>
    let inside := machine.inBody closure arguments
    recorder.bracket place machine inside
      (plan.record recorder (recorder.call place closure.declaration) inside)
      (plan.run inside).state? machine.leaveBody
  | within node plan, place, machine =>
    recorder.enter place node machine ++
      plan.record recorder (recorder.inside place node) machine ++
      recorder.leave place node (plan.run machine).error?
  | located _ plan, place, machine => plan.record recorder place machine
  | holding _ plan, place, machine => plan.record recorder place machine
  | owning _ plan, place, machine => plan.record recorder place machine
  | step, place, machine =>
    recorder.step place (step.act machine) machine (step.run machine).state?

theorem record_of_isStep (recorder : Recorder κ ρ) {plan : Plan α} (h : plan.isStep) (place : κ)
    (machine : Machine) :
    plan.record recorder place machine =
      recorder.step place (plan.act machine) machine (plan.run machine).state? := by
  induction plan with
  | located position plan ih =>
    rw [run_located, Outcome.state?_mapError]
    exact ih h
  | yield | andThen | inControl | inBlock | inCall | within | holding | owning => cases h
  | _ => rfl

theorem record_andThen_done (recorder : Recorder κ ρ) {first : Plan α} {second : α → Plan β}
    {machine middle : Machine} {value : α} (h : first.run machine = .done value middle)
    (place : κ) :
    (first.andThen second).record recorder place machine =
      first.record recorder place machine ++ (second value).record recorder place middle := by
  simp only [record, h]

theorem record_andThen_stopped (recorder : Recorder κ ρ) {first : Plan α} {second : α → Plan β}
    {machine : Machine} (h : ∀ value middle, first.run machine ≠ .done value middle) (place : κ) :
    (first.andThen second).record recorder place machine =
      first.record recorder place machine := by
  rw [record]
  split
  · next value middle hdone => exact absurd hdone (h value middle)
  · exact List.append_nil _

theorem mem_record_andThen {recorder : Recorder κ ρ} {first : Plan α} {second : α → Plan β}
    {place : κ} {machine : Machine} {found : ρ} :
    found ∈ (first.andThen second).record recorder place machine ↔
      found ∈ first.record recorder place machine ∨
        ∃ value middle, first.run machine = .done value middle ∧
          found ∈ (second value).record recorder place middle := by
  rw [record, List.mem_append]
  cases first.run machine with
  | done value middle => simp [and_assoc]
  | failed error after => simp
  | outOfFuel => simp

end Plan

/-- A recorder that has nothing to say of changes of the machine. -/
theorem Recorder.bracket_eq {recorder : Recorder κ ρ}
    (h : ∀ place before after, recorder.step place .other before after = []) (place : κ)
    (before inside : Machine) (records : List ρ) (ended : Option Machine)
    (back : Machine → Machine) :
    recorder.bracket place before inside records ended back = records := by
  simp [bracket, h]

theorem Recorder.mem_bracket {recorder : Recorder κ ρ} {place : κ} {before inside : Machine}
    {records : List ρ} {ended : Option Machine} {back : Machine → Machine} {found : ρ} :
    found ∈ recorder.bracket place before inside records ended back ↔
      found ∈ recorder.step place .other before (some inside) ∨ found ∈ records ∨
        ∃ after, ended = some after ∧
          found ∈ recorder.step place .other after (some (back after)) := by
  simp [bracket]

/-! ### Steps -/

/-- A step, with the machine before it and, unless it was cut off, the one after it. -/
structure Moment where
  act : Act
  before : Machine
  after : Option Machine

/-- All steps are recorded. -/
def Recorder.moments : Recorder Unit Moment where
  step _ act before after := [⟨act, before, after⟩]
  enter _ _ _ := []
  leave _ _ _ := []
  inside place _ := place
  call place _ := place

/-- The steps of a run. -/
def Plan.moments {α : Type} (plan : Plan α) (machine : Machine) : List Moment :=
  plan.record .moments () machine

/-! ### Statements at their places -/

namespace Stmt

/-- Does the statement repeat another one? -/
def isLoop : Stmt → Bool
  | forLoop _ _ _ _ | foreachLoop _ _ _ | whileLoop _ _ | doWhileLoop _ _ => true
  | _ => false

/-- Does the statement choose between cases? -/
def isSwitch : Stmt → Bool
  | switch _ _ => true
  | _ => false

/-- The statements directly inside a statement. Those of functions that are created in
its expressions are not among them. -/
def children : Stmt → List Stmt
  | block body => body
  | branch _ yes clauses otherwise => yes :: (clauses.map Clause.body ++ otherwise.toList)
  | forLoop _ _ _ body | foreachLoop _ _ body | whileLoop _ body | doWhileLoop body _ => [body]
  | switch _ cases => cases.flatMap Case.body
  | _ => []

/-- `root.Occurs around statement`: the statement occurs in `root`, inside of the
statements `around`, the innermost of which comes first. -/
inductive Occurs (root : Stmt) : List Stmt → Stmt → Prop
  | root : Occurs root [] root
  | inside {around : List Stmt} {outer inner : Stmt} (h : Occurs root around outer)
    (hinner : inner ∈ outer.children) : Occurs root (outer :: around) inner

end Stmt

/-- A place in the body of a function: the statements around it, from the innermost one
outwards. -/
structure Place where
  function : Declaration
  around : List Stmt

namespace Place

/-- The place of the body itself. -/
def start (function : Declaration) : Place :=
  ⟨function, []⟩

/-- The place inside a statement that stands here. -/
def within (place : Place) (statement : Stmt) : Place :=
  ⟨place.function, statement :: place.around⟩

/-- How many loops are around the place? -/
def loops (place : Place) : Nat :=
  place.around.countP Stmt.isLoop

/-- How many switches are around the place? -/
def switches (place : Place) : Nat :=
  place.around.countP Stmt.isSwitch

/-- The statement stands at this place. -/
def Holds (place : Place) (statement : Stmt) : Prop :=
  place.function.body.Occurs place.around statement

end Place

/-- A statement that is about to be executed, at its place, in a machine. -/
structure Event where
  place : Place
  statement : Stmt
  machine : Machine

/-- The statements are recorded that are executed. They have a place as soon as a function has
been called: expressions execute no statements but those of functions that they call. -/
def Recorder.statements : Recorder (Option Place) Event where
  step _ _ _ _ := []
  enter
    | some place, .statement statement, machine => [⟨place, statement, machine⟩]
    | _, _, _ => []
  leave _ _ _ := []
  inside
    | some place, .statement statement => some (place.within statement)
    | place, _ => place
  call _ declaration := some (.start declaration)

/-- The statements that a run executes. -/
def Plan.watch {α : Type} (plan : Plan α) (place : Option Place) (machine : Machine) : List Event :=
  plan.record .statements place machine

/-! ### Errors on their way -/

/-- A node that an error has passed through, with the error as it left the node. -/
structure Passage where
  node : Node
  error : RuntimeError

/-- The nodes are recorded that are left with an error. -/
def Recorder.passages : Recorder Unit Passage where
  step _ _ _ _ := []
  enter _ _ _ := []
  leave _ node error := error.toList.map fun error => ⟨node, error⟩
  inside place _ := place
  call place _ := place

/-- The nodes that the error of a run has passed through, the innermost one first. -/
def Plan.passages {α : Type} (plan : Plan α) (machine : Machine) : List Passage :=
  plan.record .passages () machine

/-! ### Streams -/

/-- What happens to the streams. -/
inductive StreamEvent where
  | wrote (text : String)
  /-- There was no room for the text. -/
  | refused (text : String)
  /-- A line is read, with its end. It is empty at the end of the input. -/
  | read (line : List UInt8)

/-- What is read and written is recorded. -/
def Recorder.streams : Recorder Unit StreamEvent where
  step
    | _, .write text, before, _ =>
      [if before.console.fits text then .wrote text else .refused text]
    | _, .readLine, before, _ => [.read (Console.splitLine before.console.input).1]
    | _, _, _, _ => []
  enter _ _ _ := []
  leave _ _ _ := []
  inside place _ := place
  call place _ := place

/-- What a run reads and writes, in order. -/
def Plan.events {α : Type} (plan : Plan α) (machine : Machine) : List StreamEvent :=
  plan.record .streams () machine

end Betty
