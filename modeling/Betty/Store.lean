import Betty.Handles
import Betty.Plan

/-!
# Running a plan with handles

The store is the machine with the handles to its objects. Running a plan on the store does
what the plan does to the machine, and keeps count of the handles. A change of a binding
gives up the value that was bound before, while the frame is lent out for the change. If
this comes to a release of that very frame, the run is over: it has crashed.

## Main definitions

* `Store`: the machine and the handles.
* `Stop`: why a run does not yield a value.
* `Store.rebind`: a change of a binding.
* `Plan.onStore`: runs a plan.
-/

namespace Betty

/-- The machine, and the handles to its objects. -/
structure Store where
  machine : Machine
  handles : Handles

/-- Why a run stops without a value. -/
inductive Stop where
  | error (error : RuntimeError)
  /-- A frame had to be looked at while it was lent out. -/
  | crash

/-- A computation on the store. -/
abbrev Work (α : Type) : Type :=
  Action Stop Store α

namespace Store

variable {α : Type}

/-- The store before a program is started, with the given streams. -/
def initial (console : Console) : Store :=
  ⟨.initial console, .none⟩

/-- A computation on the machine. -/
@[inline]
def perform (action : Eval α) : Work α :=
  fun store =>
    let handles := store.handles
    match action store.machine with
    | .done value machine => .done value ⟨machine, handles⟩
    | .failed error machine => .failed (.error error) ⟨machine, handles⟩
    | .outOfFuel => .outOfFuel

/-- A look at the machine. -/
@[noinline]
def look (view : Machine → α) : Work α :=
  fun store => .done (view store.machine) store

/-- A change of the handles. -/
@[inline]
def updateHandles (change : Machine → Handles → Handles) : Work Unit :=
  fun store =>
    let machine := store.machine
    let handles := store.handles
    .done () ⟨machine, change machine handles⟩

/-- New handles to values. -/
def keep (values : List Value) : Work Unit :=
  updateHandles fun _ handles => handles.keepAll values

/-- Gives up handles, while a frame may be lent out. -/
def giveUp (fuel : Nat) (lent : Option FrameRef) (losses : List Loss) : Work Unit :=
  fun store =>
    let machine := store.machine
    let handles := store.handles
    match handles.giveUp machine lent fuel losses with
    | .done _ handles => .done () ⟨machine, handles⟩
    | .failed _ handles => .failed .crash ⟨machine, handles⟩
    | .outOfFuel => .outOfFuel

/-- Gives up values. -/
def drop (fuel : Nat) (values : List Value) : Work Unit :=
  giveUp fuel none (values.map .value)

/-- A computation, and what follows it whether it yields a value or fails. -/
@[inline]
def followed (work : Work α) (next : Work Unit) : Work α :=
  fun store =>
    match work store with
    | .done value store => (next >>= fun _ => pure value) store
    | .failed (.error error) store => (next >>= fun _ => Action.fail (.error error)) store
    | ended => ended

/-- A computation, and what follows it if it fails. -/
@[inline]
def ifFailed (work : Work α) (next : Work Unit) : Work α :=
  fun store =>
    match work store with
    | .failed (.error error) store => (next >>= fun _ => Action.fail (.error error)) store
    | ended => ended

/-- A change of a binding, which gets a copy of a value. The frame in which a value is
replaced is lent out until that value has been given up. -/
def rebind (fuel : Nat) (replaced : Environment → Option FrameRef × Option Value)
    (change : Environment → Environment) (value : Value) : Work Unit := do
  let (lent, old) ← look fun machine => replaced machine.environment
  perform (Eval.updateEnvironment change)
  keep [value]
  giveUp fuel lent (old.toList.map .value)

/-- Assigns a copy of a value to a name. -/
def assign (fuel : Nat) (name : String) (value : Value) : Work Unit :=
  rebind fuel (fun env => env.replaced name) (fun env => env.set name value) value

/-- Binds a name to a copy of a value in the innermost frame. -/
def declare (fuel : Nat) (name : String) (value : Value) : Work Unit :=
  rebind fuel (fun env => env.replacedLocal name) (fun env => env.declareLocal name value) value

/-- A computation on the heap. The elements of a list that it changes are given up, and
copies of those that the list has then are kept. -/
def onHeap (fuel : Nat) (changed : List ListRef) (action : HeapAction Value) : Work Value := do
  let old ← look fun machine => changed.flatMap fun ref => (machine.heap.items ref).toList
  let value ← perform (Eval.onHeap action)
  updateHandles fun machine handles =>
    let created := handles.isNew value
    let handles := handles.keepAll (changed.flatMap fun ref => (machine.heap.items ref).toList)
    let handles := if created then handles else handles.keep value
    handles.adopt machine.heap
  drop fuel old
  return value

/-- A computation in a block of its own. -/
def inBlock (fuel : Nat) (work : Work α) : Work α := do
  perform (Eval.updateEnvironment Environment.push)
  updateHandles fun _ handles => handles.newFrame
  followed work do
    let chain ← look fun machine => machine.environment.chain
    perform (Eval.updateEnvironment Environment.pop)
    giveUp fuel none (chain.head?.toList.map .scope)

/-- The values that are bound to names which are bound again later in the row. -/
def shadowed : List (String × Value) → List Value
  | [] => []
  | (name, value) :: rest =>
    if rest.any fun later => later.1 == name then value :: shadowed rest else shadowed rest

/-- Enters the body of a function. The answer is the chain and the control context of the
caller. -/
def enterCall (closure : Closure) (arguments : List Value) : Work (Chain × Control) :=
  fun ⟨⟨environment, heap, control, functions, console⟩, handles⟩ =>
    .done (environment.chain, control)
      ⟨⟨environment.inBody closure arguments, heap, .initial, functions, console⟩,
        (handles.keepFrames closure.chain).newFrame⟩

/-- Leaves the body of a function. The answer is the chain of the body. -/
def leaveCall (caller : Chain × Control) : Work Chain :=
  fun ⟨⟨environment, heap, _, functions, console⟩, handles⟩ =>
    .done environment.chain
      ⟨⟨environment.leaveCall caller.1, heap, caller.2, functions, console⟩, handles⟩

/-- A computation in the body of a function. The frames of the body are given up at its
end, the innermost first. -/
def inCall (fuel : Nat) (closure : Closure) (arguments : List Value) (work : Work α) :
    Work α := do
  let caller ← enterCall closure arguments
  drop fuel (shadowed (closure.declaration.parameters.zip arguments))
  followed work do
    let callee ← leaveCall caller
    giveUp fuel none (callee.map .scope)

end Store

/-- Runs a plan on the store. The fuel bounds how much is lost with a single handle. -/
def Plan.onStore (fuel : Nat) {α : Type} : Plan α → Work α
  | yield value => pure value
  | andThen first second => first.onStore fuel >>= fun value => (second value).onStore fuel
  | perform action => Store.perform action
  | read _ view => do
    let value ← Store.perform (Eval.query view)
    Store.keep [value]
    return value
  | fetch view held => do
    let found ← Store.perform (Eval.query view)
    Store.keep (held found)
    return found
  | onHeap changed action => Store.onHeap fuel changed action
  | setElement ref position value => do
    let old ← Store.look fun machine => (machine.heap.items ref)[position]?
    Store.perform (Plan.setElement ref position value).run
    Store.keep [value]
    Store.drop fuel old.toList
  | extendList ref extra => do
    Store.perform (Plan.extendList ref extra).run
    Store.keep extra.toList
  | close declaration => do
    let chain ← Store.look fun machine => machine.environment.capture
    let function ← Store.perform (Eval.close declaration)
    Store.updateHandles fun _ handles => handles.newFunction chain
    return function
  | assign name value => Store.assign fuel name value
  | declare name value => Store.declare fuel name value
  | write text => Store.perform (Plan.write text).run
  | readLine => Store.perform Plan.readLine.run
  | inControl enter exit plan => do
    Store.perform (Eval.updateControl enter)
    Store.followed (plan.onStore fuel) (Store.perform (Eval.updateControl exit))
  | inBlock plan => Store.inBlock fuel (plan.onStore fuel)
  | inCall closure arguments plan => Store.inCall fuel closure arguments (plan.onStore fuel)
  | located position plan => fun store =>
    match plan.onStore fuel store with
    | .failed (.error error) store => .failed (.error (error.locate position)) store
    | ended => ended
  | within _ plan => plan.onStore fuel
  | holding values plan => Store.followed (plan.onStore fuel) (Store.drop fuel values)
  | owning values plan => Store.ifFailed (plan.onStore fuel) (Store.drop fuel values)

end Betty
