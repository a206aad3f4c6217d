import Betty.Fault
import Betty.Table

/-!
# Environments

Names are bound in frames. Each block, loop and call has a frame of its own, and
the active chain lists the frames in which a name is looked up, from the innermost
outwards; after them come the global variables. Frames outlive their block: a function
keeps the chain it was created in, and shares its frames with all other holders.

## Main definitions

* `Environment.push`, `Environment.pop`: entering and leaving a block.
* `Environment.get?`, `Environment.set`: the value of a name, and assignment.
* `Environment.capture`, `Environment.enterCall`, `Environment.leaveCall`.
-/

namespace Betty

/-- The bindings of a block, loop or call. -/
abbrev Frame : Type := Table Value

/-- All frames, the active chain and the global variables. -/
structure Environment where
  frames : Array Frame
  chain : Chain
  globals : Frame

namespace Environment

/-- The environment before anything is declared. -/
def empty : Environment := ⟨#[], [], .empty⟩

instance : Inhabited Environment := ⟨empty⟩

/-- The bindings of a frame. -/
def frame (env : Environment) (ref : FrameRef) : Frame :=
  env.frames.getD ref .empty

/-- Enters a block: a new frame becomes the innermost one. -/
def push (env : Environment) : Environment :=
  let ref := env.frames.size
  { env with frames := env.frames.push .empty, chain := ref :: env.chain }

/-- Leaves a block. -/
def pop (env : Environment) : Environment :=
  { env with chain := env.chain.tail }

/-- Binds a name in a frame. -/
def bindIn (env : Environment) (ref : FrameRef) (name : String) (value : Value) : Environment :=
  { env with frames := env.frames.modify ref fun frame => frame.put name value }

/-- Binds a name among the global variables. -/
def bindGlobal (env : Environment) (name : String) (value : Value) : Environment :=
  { env with globals := env.globals.put name value }

/-- Declares a global variable, once. -/
def declareGlobal (env : Environment) (name : String) (value : Value) :
    Except Fault Environment :=
  if env.globals.contains name then .error (.duplicateGlobal name)
  else .ok (env.bindGlobal name value)

/-- Binds a name in the innermost frame, whatever it means further out. -/
def declareLocal (env : Environment) (name : String) (value : Value) : Environment :=
  match env.chain with
  | ref :: _ => env.bindIn ref name value
  | [] => env.bindGlobal name value

/-- The innermost active frame that binds a name. -/
def holder? (env : Environment) (name : String) : Option FrameRef :=
  env.chain.find? fun ref => (env.frame ref).contains name

/-- Assigns to a name: where it is bound in the active chain, otherwise among the global
variables if it is one of them, otherwise as a new name of the innermost frame. -/
def set (env : Environment) (name : String) (value : Value) : Environment :=
  match env.holder? name with
  | some ref => env.bindIn ref name value
  | none =>
    if env.globals.contains name then env.bindGlobal name value
    else env.declareLocal name value

/-- What an assignment to a name replaces: the frame that is changed, if it is one, and the
value that the name has there, if it has one. -/
def replaced (env : Environment) (name : String) : Option FrameRef × Option Value :=
  match env.holder? name with
  | some ref => (some ref, (env.frame ref).get? name)
  | none => (none, env.globals.get? name)

/-- What a declaration in the innermost frame replaces. -/
def replacedLocal (env : Environment) (name : String) : Option FrameRef × Option Value :=
  match env.chain with
  | ref :: _ => (some ref, (env.frame ref).get? name)
  | [] => (none, env.globals.get? name)

/-- The value of a name in the active chain. -/
def local? (env : Environment) (name : String) : Option Value :=
  env.chain.findSome? fun ref => (env.frame ref).get? name

/-- The value of a name in the active chain or among the global variables. -/
def get? (env : Environment) (name : String) : Option Value :=
  env.local? name <|> env.globals.get? name

/-- The value of a name that must have one. -/
def lookup (env : Environment) (name : String) : Except Fault Value :=
  match env.get? name with
  | some value => .ok value
  | none => .error (.undefinedVariable name)

/-- The chain that a function created now keeps. -/
def capture (env : Environment) : Chain :=
  env.chain

/-- Enters a call: the frames that the function has kept, and a new one inside them. -/
def enterCall (env : Environment) (captured : Chain) : Environment :=
  { env with chain := captured }.push

/-- The environment in which the body of a function starts: its parameters are bound to the
arguments in the new frame. -/
def inBody (env : Environment) (closure : Closure) (arguments : List Value) : Environment :=
  (closure.declaration.parameters.zip arguments).foldl
    (fun env (name, value) => env.declareLocal name value) (env.enterCall closure.chain)

/-- Leaves a call, back to the chain of the caller. -/
def leaveCall (env : Environment) (saved : Chain) : Environment :=
  { env with chain := saved }

/-- The frames of a chain, the outermost first. -/
def framesOf (env : Environment) (chain : Chain) : List Frame :=
  chain.reverse.map env.frame

end Environment

end Betty
