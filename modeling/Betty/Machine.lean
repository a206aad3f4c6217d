import Betty.Console
import Betty.Control
import Betty.Environment
import Betty.Heap

/-!
# The state of a running program

## Main definitions

* `Machine`: the environment, the heap, the control context, the functions of the
  program and its streams.
* `Eval`: a computation on the machine.
* `Eval.onHeap`, `Eval.onConsole`: computations on a part of it.
* `Eval.located`, `Eval.inBlock`, `Eval.inSwitch`, `Eval.inCall`: computations with something
  around them.
-/

namespace Betty

/-- The state of a running program. -/
structure Machine where
  environment : Environment
  heap : Heap
  control : Control
  functions : Table Declaration
  console : Console

namespace Machine

/-- The state before a program is started, with the given streams. -/
def initial (console : Console) : Machine where
  environment := .empty
  heap := .empty
  control := .initial
  functions := .empty
  console := console

end Machine

/-- A computation on the machine. -/
abbrev Eval (α : Type) : Type :=
  Action RuntimeError Machine α

namespace Eval

variable {α β : Type}

/-- Stops with a fault whose place is not known yet. -/
def fault (fault : Fault) : Eval α :=
  Action.fail (.unplaced fault)

/-- Stops with a type fault whose place is not known yet. -/
def typeFault (fault : TypeFault) : Eval α :=
  Action.fail (.unplaced (.type fault))

/-- A result that does not depend on the machine. -/
def ofExcept : Except Fault α → Eval α
  | .ok value => pure value
  | .error fault => Eval.fault fault

/-- A result that does not depend on the machine and can only fail because of a type. -/
def ofTyped : Except TypeFault α → Eval α
  | .ok value => pure value
  | .error fault => Eval.typeFault fault

/-- A value computed from the machine, or a fault. -/
@[inline]
def query (view : Machine → Except Fault α) : Eval α :=
  fun machine =>
    match view machine with
    | .ok value => .done value machine
    | .error fault => .failed (.unplaced fault) machine

/-- A computation on the heap. The machine gives the heap away while it runs, so that it
is changed in place. -/
@[inline]
def onHeap (action : HeapAction α) : Eval α :=
  fun machine =>
    let heap := machine.heap
    let machine := { machine with heap := .empty }
    match action heap with
    | .done value heap => .done value { machine with heap }
    | .failed fault heap => .failed (.unplaced fault) { machine with heap }
    | .outOfFuel => .outOfFuel

/-- A computation on the streams. -/
@[inline]
def onConsole (action : Action Fault Console α) : Eval α :=
  fun machine =>
    let console := machine.console
    let machine := { machine with console := .ofInput [] }
    match action console with
    | .done value console => .done value { machine with console }
    | .failed fault console => .failed (.unplaced fault) { machine with console }
    | .outOfFuel => .outOfFuel

/-- A change of the environment. -/
@[inline]
def updateEnvironment (change : Environment → Environment) : Eval Unit :=
  Action.update fun machine => { machine with environment := change machine.environment }

/-- A change of the heap. -/
@[inline]
def updateHeap (change : Heap → Heap) : Eval Unit :=
  Action.update fun machine => { machine with heap := change machine.heap }

/-- A change of the control context. -/
@[inline]
def updateControl (change : Control → Control) : Eval Unit :=
  Action.update fun machine => { machine with control := change machine.control }

/-- A computation whose errors are placed here unless they have a place already. -/
@[inline]
def located (position : Position) (action : Eval α) : Eval α :=
  fun machine =>
    match action machine with
    | .failed error machine => .failed (error.locate position) machine
    | ended => ended

/-- A computation, and a change of the machine that follows it however it ends. -/
@[inline]
def ensuring (action : Eval α) (change : Machine → Machine) : Eval α :=
  fun machine =>
    match action machine with
    | .done value machine => .done value (change machine)
    | .failed error machine => .failed error (change machine)
    | .outOfFuel => .outOfFuel

/-- A computation in a block of its own. -/
@[inline]
def inBlock (action : Eval α) : Eval α := do
  updateEnvironment Environment.push
  ensuring action fun machine => { machine with environment := machine.environment.pop }

/-- A computation with a change of the control context before it, and one that follows it
however it ends. -/
@[inline]
def inControl (enter exit : Control → Control) (action : Eval α) : Eval α := do
  updateControl enter
  ensuring action fun machine => { machine with control := exit machine.control }

/-- A computation inside a switch, in a block of its own. -/
@[inline]
def inSwitch (action : Eval α) : Eval α :=
  inBlock (inControl Control.enterSwitch Control.exitSwitch action)

/-- A computation in the body of a function: it runs in the chain that the function has
kept, with a control context of its own. -/
@[inline]
def inCall (closure : Closure) (arguments : List Value) (action : Eval α) : Eval α := do
  let chain ← Action.gets fun machine => machine.environment.chain
  let control ← Action.gets Machine.control
  updateEnvironment fun env => env.inBody closure arguments
  updateControl fun _ => .initial
  ensuring action fun machine =>
    { machine with control, environment := machine.environment.leaveCall chain }

/-- The function that a statement or an expression creates. -/
def close (declaration : Declaration) : Eval Value := do
  let chain ← Action.gets fun machine => machine.environment.capture
  onHeap (HeapAction.newFunction declaration chain)

/-- Lets a loop handle the end of an iteration. Does the loop stop? -/
def endIteration : Eval Bool :=
  fun machine =>
    let stops := machine.control.stopsLoop
    .done stops { machine with control := machine.control.endIteration }

end Eval

end Betty
