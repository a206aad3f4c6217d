import Betty.Machine

/-!
# Handles

Lists, functions and frames are kept as long as somebody has a handle to them: a name, a
list, a function that has kept a frame, the active chain, or the computation itself. When
the last handle to an object is given up, so are the handles that the object has itself.

A function that is bound in a frame that it has kept would keep itself for ever. So giving
up a frame looks whether all other handles to it come from such functions, and in that case
its bindings are given up with it. This has to read the frame, which is not possible while
the frame is lent out for a change of its bindings.

## Main definitions

* `Handles`: how many handles there are to each object.
* `Handles.keep`, `Handles.keepFrames`, `Handles.adopt`: new handles.
* `Loss`, `Handles.giveUp`: giving up handles.
-/

namespace Betty

/-- The handles to a frame, and whether its bindings have been given up. -/
structure FrameHandles where
  count : Nat
  cleared : Bool

/-- How many handles there are to each list, function and frame. -/
structure Handles where
  lists : Array Nat
  functions : Array Nat
  frames : Array FrameHandles

namespace Handles

/-- No object, no handles. -/
def none : Handles := ⟨#[], #[], #[]⟩

instance : Inhabited Handles := ⟨none⟩

/-! ### New handles -/

/-- One handle more to what a value refers to. -/
def keep (handles : Handles) : Value → Handles
  | .list ref => { handles with lists := handles.lists.modify ref (· + 1) }
  | .function ⟨_, _, some ref⟩ =>
    { handles with functions := handles.functions.modify ref (· + 1) }
  | _ => handles

/-- One handle more for each of the values. -/
def keepAll (handles : Handles) (values : List Value) : Handles :=
  values.foldl keep handles

/-- One handle more to each frame of a chain. -/
def keepFrames (handles : Handles) (chain : Chain) : Handles :=
  { handles with
    frames := chain.foldl (fun frames ref =>
      frames.modify ref fun frame => { frame with count := frame.count + 1 }) handles.frames }

/-- A new frame, with one handle. -/
def newFrame (handles : Handles) : Handles :=
  { handles with frames := handles.frames.push ⟨1, false⟩ }

/-- A new function that keeps a chain, with one handle. -/
def newFunction (handles : Handles) (chain : Chain) : Handles :=
  let handles := handles.keepFrames chain
  { handles with functions := handles.functions.push 1 }

/-- Is the value a list that there are no handles to yet? -/
def isNew (handles : Handles) : Value → Bool
  | .list ref => handles.lists.size ≤ ref
  | _ => false

/-- Takes over the lists that are new in the heap. Each of them has one handle, and handles
to its elements. -/
def adopt (handles : Handles) (heap : Heap) : Handles :=
  let created := heap.cells.extract handles.lists.size heap.cells.size
  let kept := created.foldl (fun handles items =>
    items.foldl (fun handles item => if handles.isNew item then handles else handles.keep item)
      handles) handles
  { kept with lists := kept.lists ++ created.map fun _ => 1 }

/-! ### Giving up handles -/

/-- How many handles to a frame come from functions that are bound in it and to which there
is no other handle. -/
def internal (handles : Handles) (bindings : List Value) (ref : FrameRef) : Nat :=
  bindings.foldl (fun count value =>
    match value with
    | .function ⟨_, chain, some function⟩ =>
      if handles.functions.getD function 0 = 1 then count + chain.count ref else count
    | _ => count) 0

end Handles

/-- A handle that is to be given up. -/
inductive Loss where
  | value (value : Value)
  /-- A handle to a frame, with a look at who else has one. -/
  | scope (ref : FrameRef)
  /-- A handle to a frame, without it. -/
  | frame (ref : FrameRef)

/-- Has the frame, if there is one, to be looked at? -/
def Loss.looksAt (lent : Option FrameRef) : Loss → Bool
  | scope ref => lent == some ref
  | _ => false

namespace Handles

/-- The values that are bound in a frame, unless they have been given up. -/
def bindings (handles : Handles) (machine : Machine) (ref : FrameRef) : List Value :=
  if (handles.frames.getD ref ⟨0, true⟩).cleared then []
  else (machine.environment.frame ref).entries.map Prod.snd

/-- The bindings of a frame have been given up. -/
def clear (handles : Handles) (ref : FrameRef) : Handles :=
  { handles with frames := handles.frames.modify ref fun frame => { frame with cleared := true } }

/-- One handle less to a list. If it was the last one, its elements are to be given up. -/
def dropList (handles : Handles) (machine : Machine) (ref : ListRef) : List Loss × Handles :=
  let last := handles.lists.getD ref 0 == 1
  let handles := { handles with lists := handles.lists.modify ref (· - 1) }
  (if last then (machine.heap.items ref).toList.map .value else [], handles)

/-- One handle less to a function. If it was the last one, its frames are to be given up,
the innermost first. -/
def dropFunction (handles : Handles) (ref : FunctionRef) (chain : Chain) :
    List Loss × Handles :=
  let last := handles.functions.getD ref 0 == 1
  let handles := { handles with functions := handles.functions.modify ref (· - 1) }
  (if last then chain.map .scope else [], handles)

/-- One handle less to a frame. If it was the last one, its bindings are to be given up. -/
def dropFrame (handles : Handles) (machine : Machine) (ref : FrameRef) : List Loss × Handles :=
  let last := (handles.frames.getD ref ⟨0, true⟩).count == 1
  let lost := if last then handles.bindings machine ref else []
  let handles :=
    { handles with
      frames := handles.frames.modify ref fun frame => { frame with count := frame.count - 1 } }
  (lost.map .value, handles)

/-- What is to be given up before a handle to a frame is: its bindings, if all other handles
come from functions that are bound in it. -/
def closeScope (handles : Handles) (machine : Machine) (ref : FrameRef) : List Loss × Handles :=
  let bound := handles.bindings machine ref
  let internal := handles.internal bound ref
  if 0 < internal ∧ (handles.frames.getD ref ⟨0, true⟩).count = internal + 1 then
    (bound.map .value ++ [.frame ref], handles.clear ref)
  else ([.frame ref], handles)

/-- Gives up one handle: what is to be given up next because of it, and the handles that are
left. -/
def lose (handles : Handles) (machine : Machine) : Loss → List Loss × Handles
  | .value (.list ref) => handles.dropList machine ref
  | .value (.function ⟨_, chain, some ref⟩) => handles.dropFunction ref chain
  | .value _ => ([], handles)
  | .scope ref => handles.closeScope machine ref
  | .frame ref => handles.dropFrame machine ref

/-- Gives up handles, one after another, and what is lost with them. It fails when it has to
look at a frame that is lent out. -/
def giveUp (machine : Machine) (lent : Option FrameRef) :
    Nat → List Loss → Handles → Outcome Unit Handles Unit
  | _, [], handles => .done () handles
  | 0, _ :: _, _ => .outOfFuel
  | fuel + 1, loss :: rest, handles =>
    if loss.looksAt lent then .failed () handles
    else
      let (more, handles) := handles.lose machine loss
      giveUp machine lent fuel (more ++ rest) handles

end Handles

end Betty
