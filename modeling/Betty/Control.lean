import Betty.Value

/-!
# Control

Statements that leave a block early do so through the control context: they set the
flow, and every enclosing block, loop, switch and call looks at it. The depths count
the loops and switches around the current statement within its function. A call starts
from the initial context, and the caller takes its own back afterwards.
-/

namespace Betty

/-- How the execution of statements goes on. -/
inductive Flow where
  | normal | breaking | continuing | returning
deriving DecidableEq, Repr

/-- The flow, the value being returned, and the loops and switches around the current
statement. -/
structure Control where
  flow : Flow
  returned : Value
  loopDepth : Nat
  switchDepth : Nat

namespace Control

/-- The control context at the start of a program and of every function. -/
def initial : Control := ⟨.normal, .none, 0, 0⟩

instance : Inhabited Control := ⟨initial⟩

/-- Does the execution go on with the next statement? -/
def isNormal (control : Control) : Bool :=
  control.flow == .normal

/-- Sets the flow. -/
def setFlow (control : Control) (flow : Flow) : Control :=
  { control with flow }

/-- Enters a loop. -/
def enterLoop (control : Control) : Control :=
  { control with loopDepth := control.loopDepth + 1 }

/-- Leaves a loop. -/
def exitLoop (control : Control) : Control :=
  { control with loopDepth := control.loopDepth - 1 }

/-- Enters a switch. -/
def enterSwitch (control : Control) : Control :=
  { control with switchDepth := control.switchDepth + 1 }

/-- Leaves a switch. -/
def exitSwitch (control : Control) : Control :=
  { control with switchDepth := control.switchDepth - 1 }

/-- Is there a loop or a switch to break out of? -/
def canBreak (control : Control) : Bool :=
  0 < control.loopDepth || 0 < control.switchDepth

/-- Is there a loop to continue? -/
def canContinue (control : Control) : Bool :=
  0 < control.loopDepth

/-- Starts to return a value. -/
def setReturn (control : Control) (value : Value) : Control :=
  { control with returned := value, flow := .returning }

/-- The value that a function yields: the returned one, or nothing if its body came to
its end. -/
def result (control : Control) : Value :=
  if control.flow = .returning then control.returned else .none

/-- Gives up the value that is being returned. -/
def dropReturn (control : Control) : Control :=
  if control.flow = .returning then { control with returned := .none } else control

/-- The flow after a loop has handled the end of an iteration. -/
def endIteration (control : Control) : Control :=
  match control.flow with
  | .normal | .returning => control
  | .breaking | .continuing => control.setFlow .normal

/-- Does the loop stop after an iteration that ended like this? -/
def stopsLoop (control : Control) : Bool :=
  match control.flow with
  | .normal | .continuing => false
  | .breaking | .returning => true

/-- The flow after a switch: a break has reached its goal. -/
def endSwitch (control : Control) : Control :=
  if control.flow = .breaking then control.setFlow .normal else control

end Control

end Betty
