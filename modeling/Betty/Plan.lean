import Betty.Machine

/-!
# Plans

A plan is a computation of the machine as data: the steps, what is around a part of it, and
the nodes of the program that are being evaluated. Running the plan is what the computation
does. Since it is data, more can be said of it than of a function: through which nodes an
error has passed, what has been read and written, and who holds which values.

Values are held by names, by lists and by the computation itself. A plan says where the
computation gets a value and where it gives one up. The values that a step yields are the
computation's own, until it hands them over to a name, to a list or to a call.

## Main definitions

* `Node`: a node of a program that is being evaluated.
* `Plan`, `Plan.run`: a computation as data, and what it does.
-/

namespace Betty

/-- A node of a program, while it is being evaluated. -/
inductive Node where
  | statement (statement : Stmt)
  | expr (expr : Expr)

/-- A computation as data. -/
inductive Plan : Type → Type 1 where
  /-- Nothing but a value. -/
  | yield {α : Type} (value : α) : Plan α
  /-- One computation after another. -/
  | andThen {α β : Type} (first : Plan α) (second : α → Plan β) : Plan β
  /-- A step that has nothing to do with who holds which values. -/
  | perform {α : Type} (action : Eval α) : Plan α
  /-- Gets the value of a name. -/
  | read (name : String) (view : Machine → Except Fault Value) : Plan Value
  /-- Gets something from the machine, which has the values `held` in it. -/
  | fetch {α : Type} (view : Machine → Except Fault α) (held : α → List Value) : Plan α
  /-- A computation on the heap. It changes no list but the given ones. -/
  | onHeap (changed : List ListRef) (action : HeapAction Value) : Plan Value
  /-- Puts a copy of a value in the place of an element of a list. -/
  | setElement (ref : ListRef) (position : Nat) (value : Value) : Plan Unit
  /-- Puts copies of values at the end of a list. -/
  | extendList (ref : ListRef) (extra : Array Value) : Plan Unit
  /-- Creates a function. -/
  | close (declaration : Declaration) : Plan Value
  /-- Assigns a copy of a value to a name. -/
  | assign (name : String) (value : Value) : Plan Unit
  /-- Binds a name to a copy of a value in the innermost frame. -/
  | declare (name : String) (value : Value) : Plan Unit
  /-- Writes a text. -/
  | write (text : String) : Plan Unit
  /-- Reads a line, with its end. -/
  | readLine : Plan String
  /-- A computation with a change of the control context before and after it. -/
  | inControl {α : Type} (enter exit : Control → Control) (plan : Plan α) : Plan α
  /-- A computation in a block of its own. -/
  | inBlock {α : Type} (plan : Plan α) : Plan α
  /-- A computation in the body of a function. The arguments are handed over. -/
  | inCall {α : Type} (closure : Closure) (arguments : List Value) (plan : Plan α) : Plan α
  /-- A computation whose errors are placed here unless they have a place already. -/
  | located {α : Type} (position : Position) (plan : Plan α) : Plan α
  /-- The evaluation of a node. -/
  | within {α : Type} (node : Node) (plan : Plan α) : Plan α
  /-- A computation during which values are held. They are given up when it has ended. -/
  | holding {α : Type} (values : List Value) (plan : Plan α) : Plan α
  /-- A computation during which values are held. They are given up if it fails. -/
  | owning {α : Type} (values : List Value) (plan : Plan α) : Plan α

namespace Plan

variable {α : Type}

instance : Monad Plan where
  pure := yield
  bind := andThen

/-- The computation that is planned. -/
def run {α : Type} : Plan α → Eval α
  | yield value => pure value
  | andThen first second => first.run >>= fun value => (second value).run
  | perform action => action
  | read _ view => Eval.query view
  | fetch view _ => Eval.query view
  | onHeap _ action => Eval.onHeap action
  | setElement ref position value => Eval.updateHeap fun heap =>
    heap.modify ref fun items => items.setIfInBounds position value
  | extendList ref extra => Eval.updateHeap fun heap =>
    heap.modify ref fun items => items ++ extra
  | close declaration => Eval.close declaration
  | assign name value => Eval.updateEnvironment fun env => env.set name value
  | declare name value => Eval.updateEnvironment fun env => env.declareLocal name value
  | write text => Eval.onConsole (Console.write text)
  | readLine => Eval.onConsole Console.readLine
  | inControl enter exit plan => plan.run.inControl enter exit
  | inBlock plan => plan.run.inBlock
  | inCall closure arguments plan => plan.run.inCall closure arguments
  | located position plan => plan.run.located position
  | within _ plan => plan.run
  | holding _ plan => plan.run
  | owning _ plan => plan.run

/-- A look at the machine. -/
def look (view : Machine → α) : Plan α :=
  perform (Action.gets view)

/-- Stops with an error. -/
def fail (error : RuntimeError) : Plan α :=
  perform (Action.fail error)

/-- Stops with a fault whose place is not known yet. -/
def fault (fault : Fault) : Plan α :=
  perform (Eval.fault fault)

/-- The computation that has no fuel left. -/
def exhausted : Plan α :=
  perform Action.exhausted

/-- Gives up values. -/
def forget (values : List Value) : Plan Unit :=
  holding values (yield ())

/-- A change of the control context. -/
def updateControl (change : Control → Control) : Plan Unit :=
  perform (Eval.updateControl change)

/-- A computation inside a loop, with a block around the whole loop. -/
def inLoop (plan : Plan α) : Plan α :=
  inBlock (inControl Control.enterLoop Control.exitLoop plan)

/-- A computation inside a switch, in a block of its own. -/
def inSwitch (plan : Plan α) : Plan α :=
  inBlock (inControl Control.enterSwitch Control.exitSwitch plan)

end Plan

end Betty
