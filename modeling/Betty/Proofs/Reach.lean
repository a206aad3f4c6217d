import Betty.Proofs.Heap.Pool
import Betty.Proofs.Machine.Admits

/-!
# What a call can change

A call can get at the values that it is given, at the global variables and at the frames
that its function has captured, and from there at whatever they refer to. A set of frames
and lists that contains all of this, and all frames and lists that are still to be made, is
never left: references are passed on and made anew, but not made up. What lies outside of it
stays as it is.

## Main definitions

* `Machine.Reaches`: the values that a call can get at.
* `Region`: a set of frames and lists, all future ones included.
* `Policy.within`: the policy that nothing at hand refers to anything outside a region, and
  that everything outside of it is as before.

## Main results

* `call_keeps_unreached`: a call changes nothing that it cannot reach.
-/

namespace Betty

/-! ### Reachability -/

/-- The values that a call of a function with the given arguments can get at: the function,
the arguments and the global variables, the elements of lists that it can get at, and what
is bound in frames that functions have captured which it can get at. -/
inductive Machine.Reaches (machine : Machine) (closure : Closure) (arguments : List Value) :
    Value → Prop
  | callee : Reaches machine closure arguments (.function closure)
  | argument {value : Value} : value ∈ arguments → Reaches machine closure arguments value
  | global {name : String} {value : Value} :
    machine.environment.globals.get? name = some value → Reaches machine closure arguments value
  | element {ref : ListRef} {value : Value} : Reaches machine closure arguments (.list ref) →
    value ∈ machine.heap.items ref → Reaches machine closure arguments value
  | captured {holder : Closure} {ref : FrameRef} {name : String} {value : Value} :
    Reaches machine closure arguments (.function holder) → ref ∈ holder.chain →
    (machine.environment.frame ref).get? name = some value →
    Reaches machine closure arguments value

/-- The frame has been captured by a function that the call can get at. -/
def Machine.ReachesFrame (machine : Machine) (closure : Closure) (arguments : List Value)
    (ref : FrameRef) : Prop :=
  ∃ holder, machine.Reaches closure arguments (.function holder) ∧ ref ∈ holder.chain

/-! ### Regions -/

/-- A set of frames and lists, with all those that the machine does not have yet. -/
structure Region (origin : Machine) where
  frame : FrameRef → Prop
  list : ListRef → Prop
  newFrame : ∀ ref, origin.environment.frames.size ≤ ref → frame ref
  newList : ∀ ref, origin.heap.cells.size ≤ ref → list ref

/-- What a call can get at, and all that is new. -/
def Region.ofCall (machine : Machine) (closure : Closure) (arguments : List Value) :
    Region machine where
  frame ref :=
    machine.environment.frames.size ≤ ref ∨ machine.ReachesFrame closure arguments ref
  list ref := machine.heap.cells.size ≤ ref ∨ machine.Reaches closure arguments (.list ref)
  newFrame _ := .inl
  newList _ := .inl

variable {origin : Machine} {region : Region origin}

/-- The value does not refer to anything outside the region. -/
def Value.Within (region : Region origin) : Value → Prop
  | .list ref => region.list ref
  | .function closure => ∀ ref ∈ closure.chain, region.frame ref
  | _ => True

theorem Value.within_of_isPlain {value : Value} (h : value.isPlain) : value.Within region := by
  cases value with
  | list ref => cases h
  | function closure => cases h
  | _ => trivial

/-- Nothing in the region refers to anything outside of it, and the lists outside of it are
as they were. No list and no text has been given back. -/
structure Heap.Within (region : Region origin) (heap : Heap) : Prop where
  size : origin.heap.cells.size ≤ heap.cells.size
  texts : origin.heap.texts ≤ heap.texts
  items : ∀ ref, region.list ref → ∀ item ∈ heap.items ref, item.Within region
  kept : ∀ ref, ¬region.list ref → heap.items ref = origin.heap.items ref

namespace Heap.Within

variable {heap : Heap}

theorem alloc (h : heap.Within region) {items : Array Value}
    (hitems : ∀ item ∈ items, item.Within region) :
    region.list (heap.alloc items).1 ∧ (heap.alloc items).2.Within region := by
  have hnew : region.list heap.cells.size := region.newList _ h.size
  refine ⟨hnew, ?_, h.texts, fun ref href => ?_, fun ref href => ?_⟩
  · exact Nat.le_trans h.size (by simp [Heap.alloc])
  · rw [Heap.items_alloc]
    split
    · exact hitems
    · exact h.items ref href
  · have hother : ref ≠ heap.cells.size := fun heq => href (heq ▸ hnew)
    rw [Heap.items_alloc, if_neg hother]
    exact h.kept ref href

theorem modify (h : heap.Within region) {ref : ListRef} (href : region.list ref)
    {change : Array Value → Array Value}
    (hchange : ∀ items, (∀ item ∈ items, item.Within region) →
      ∀ item ∈ change items, item.Within region) : (heap.modify ref change).Within region := by
  refine ⟨?_, h.texts, fun other hother => ?_, fun other hother => ?_⟩
  · rw [Heap.size_modify]
    exact h.size
  · rw [Heap.items_modify]
    split
    · exact hchange _ (h.items ref href)
    · exact h.items other hother
  · have hne : other ≠ ref := fun heq => hother (heq ▸ href)
    rw [Heap.items_modify, if_neg fun hboth => hne hboth.1]
    exact h.kept other hother

end Heap.Within

/-- The active chain lies in the region, nothing in the region and no global variable refers
to anything outside of it, and the frames outside of it are as they were. -/
structure Environment.Within (region : Region origin) (env : Environment) : Prop where
  size : origin.environment.frames.size ≤ env.frames.size
  chain : ∀ ref ∈ env.chain, region.frame ref
  frames : ∀ ref, region.frame ref → ∀ name value, (env.frame ref).get? name = some value →
    value.Within region
  globals : ∀ name value, env.globals.get? name = some value → value.Within region
  kept : ∀ ref, ¬region.frame ref → env.frame ref = origin.environment.frame ref

namespace Environment.Within

variable {env : Environment}

theorem activate (h : env.Within region) {chain : Chain}
    (hchain : ∀ ref ∈ chain, region.frame ref) : { env with chain := chain }.Within region :=
  ⟨h.size, hchain, h.frames, h.globals, h.kept⟩

theorem push (h : env.Within region) : env.push.Within region := by
  refine ⟨?_, fun ref href => ?_, fun ref href => ?_, h.globals, fun ref href => ?_⟩
  · rw [Environment.size_push]
    exact Nat.le_succ_of_le h.size
  · rcases List.mem_cons.1 href with rfl | href
    · exact region.newFrame _ h.size
    · exact h.chain ref href
  · rw [Environment.frame_push]
    exact h.frames ref href
  · rw [Environment.frame_push]
    exact h.kept ref href

theorem bindIn (h : env.Within region) {ref : FrameRef} (href : region.frame ref) (name : String)
    {value : Value} (hvalue : value.Within region) : (env.bindIn ref name value).Within region := by
  refine ⟨?_, h.chain, fun other hother found result hget => ?_, h.globals, fun other hother => ?_⟩
  · rw [Environment.size_bindIn]
    exact h.size
  · rw [Environment.frame_bindIn] at hget
    split at hget
    · rw [Table.get?_put] at hget
      split at hget
      · cases hget
        exact hvalue
      · exact h.frames ref href found result hget
    · exact h.frames other hother found result hget
  · have hne : other ≠ ref := fun heq => hother (heq ▸ href)
    rw [Environment.frame_bindIn, if_neg fun hboth => hne hboth.1]
    exact h.kept other hother

theorem bindGlobal (h : env.Within region) (name : String) {value : Value}
    (hvalue : value.Within region) : (env.bindGlobal name value).Within region := by
  refine ⟨h.size, h.chain, h.frames, fun found result hget => ?_, h.kept⟩
  unfold Environment.bindGlobal at hget
  rw [Table.get?_put] at hget
  split at hget
  · cases hget
    exact hvalue
  · exact h.globals found result hget

theorem get? (h : env.Within region) {name : String} {value : Value}
    (hget : env.get? name = some value) : value.Within region := by
  rcases Environment.get?_cases hget with ⟨ref, href, hbound⟩ | hglobal
  · exact h.frames ref (h.chain ref href) name value hbound
  · exact h.globals name value hglobal

end Environment.Within

/-- The policy that nothing at hand refers to anything outside the region, and that all
outside of it is as it was. -/
def Policy.within (region : Region origin) : Policy where
  toCodePolicy := .any
  value := Value.Within region
  heap := Heap.Within region
  plain := Value.within_of_isPlain
  items h hlist := h.items _ hlist
  alloc h hitems := h.alloc hitems
  modify h hlist hchange := h.modify hlist hchange
  intern text h := ⟨h.size, Pool.le_trans h.texts (Pool.le_intern _ text), h.items, h.kept⟩
  number h := ⟨h.size, h.texts, h.items, h.kept⟩
  environment := Environment.Within region
  function {closure} _ := CodePolicy.any_allows closure.declaration
  define _ _ href := by cases href
  close _ henv _ := henv.chain
  get? henv hget := henv.get? hget
  set name _ henv hnew :=
    Environment.set_induction (fun ref href => henv.bindIn (henv.chain ref href) name hnew)
      (henv.bindGlobal name hnew)
  declareLocal henv _ hnew :=
    Environment.declareLocal_induction
      (fun ref href => henv.bindIn (henv.chain ref href) _ hnew) (henv.bindGlobal _ hnew)
  push henv := henv.push
  enterCall henv hclosure := (henv.activate hclosure).push
  restore hbefore hafter := hafter.activate hbefore.chain

/-! ### Everything -/

/-- The region of everything. -/
def Region.whole (machine : Machine) : Region machine where
  frame _ := True
  list _ := True
  newFrame _ _ := trivial
  newList _ _ := trivial

theorem Value.within_whole (value : Value) (machine : Machine) :
    value.Within (Region.whole machine) := by
  cases value with
  | function closure => exact fun _ _ => trivial
  | _ => trivial

/-- Every machine is within the region of everything. -/
theorem Machine.holds_whole (machine : Machine) :
    (Policy.within (Region.whole machine)).Holds machine where
  environment :=
    ⟨Nat.le_refl _, fun _ _ => trivial, fun _ _ _ value _ => value.within_whole machine,
      fun _ value _ => value.within_whole machine, fun _ _ => rfl⟩
  heap := ⟨Nat.le_refl _, Pool.le_refl _, fun _ _ item _ => item.within_whole machine, fun _ _ => rfl⟩
  returned := machine.control.returned.within_whole machine
  functions entry _ := CodePolicy.any_allows entry.2

/-! ### Calls -/

/-- What a call can get at refers to nothing else. -/
theorem Machine.Reaches.within {machine : Machine} {closure : Closure} {arguments : List Value}
    {value : Value} (h : machine.Reaches closure arguments value) :
    value.Within (Region.ofCall machine closure arguments) := by
  cases value with
  | list ref => exact .inr h
  | function holder => exact fun ref href => .inr ⟨holder, h, href⟩
  | _ => trivial

theorem Heap.within_ofCall (machine : Machine) (closure : Closure) (arguments : List Value) :
    machine.heap.Within (Region.ofCall machine closure arguments) := by
  refine ⟨Nat.le_refl _, Pool.le_refl _, ?_, fun _ _ => rfl⟩
  rintro ref (hnew | href) item hitem
  -- A list that does not exist has no elements.
  · have hempty : machine.heap.items ref = #[] := by
      unfold Heap.items
      rw [Array.getD_eq_getD_getElem?, Array.getElem?_eq_none hnew]
      rfl
    rw [hempty] at hitem
    cases Array.not_mem_empty item hitem
  · exact (href.element hitem).within

/-- Before the call the active chain is that of the caller, so it counts only from the body
on. -/
theorem Environment.within_ofCall (machine : Machine) (closure : Closure)
    (arguments : List Value) :
    { machine.environment with chain := [] }.Within
      (Region.ofCall machine closure arguments) := by
  refine ⟨Nat.le_refl _, fun _ href => absurd href List.not_mem_nil, ?_, ?_, fun _ _ => rfl⟩
  · rintro ref (hnew | ⟨holder, hholder, href⟩) name value hget
    · have hempty : machine.environment.frame ref = .empty := Environment.frame_eq_empty hnew
      rw [Environment.frame_chain, hempty] at hget
      cases hget
    · exact (hholder.captured href hget).within
  · exact fun _ _ hget => (Machine.Reaches.global hget).within

/-- What a call leaves as it was. -/
structure Machine.KeepsUnreached (before : Machine) (closure : Closure) (arguments : List Value)
    (after : Machine) : Prop where
  frames : ∀ ref < before.environment.frames.size, ¬before.ReachesFrame closure arguments ref →
    after.environment.frame ref = before.environment.frame ref
  lists : ∀ ref < before.heap.cells.size, ¬before.Reaches closure arguments (.list ref) →
    after.heap.items ref = before.heap.items ref
  /-- The locals of the caller that no function has captured which the call can get at. -/
  locals : ∀ ref ∈ before.environment.chain, ref < before.environment.frames.size →
    (∀ holder, before.Reaches closure arguments (.function holder) → ref ∉ holder.chain) →
    ∀ name, (after.environment.frame ref).get? name = (before.environment.frame ref).get? name

theorem Machine.KeepsUnreached.of_within {before after : Machine} {closure : Closure}
    {arguments : List Value}
    (henv : after.environment.Within (Region.ofCall before closure arguments))
    (hheap : after.heap.Within (Region.ofCall before closure arguments)) :
    before.KeepsUnreached closure arguments (before.leaveBody after) := by
  have hframes : ∀ ref < before.environment.frames.size,
      ¬before.ReachesFrame closure arguments ref →
        after.environment.frame ref = before.environment.frame ref := by
    intro ref hold hunreached
    exact henv.kept ref (not_or.2 ⟨Nat.not_le.2 hold, hunreached⟩)
  refine ⟨hframes, fun ref hold hunreached => ?_, fun ref _ hold huncaptured name => ?_⟩
  · exact hheap.kept ref (not_or.2 ⟨Nat.not_le.2 hold, hunreached⟩)
  · have hunreached : ¬before.ReachesFrame closure arguments ref :=
      fun ⟨holder, hholder, href⟩ => huncaptured holder hholder href
    exact congrArg (Table.get? · name) (hframes ref hold hunreached)

/-- A call changes nothing that it cannot reach: however it ends, the frames and the lists
that existed before it and that it could not get at are as they were, among them the locals
of the caller. -/
theorem call_keeps_unreached (fuel : Nat) (closure : Closure) (arguments : List Value)
    (machine : Machine) :
    (callFunction fuel closure arguments machine).Meets
      (fun _ after => machine.KeepsUnreached closure arguments after)
      (fun _ after => machine.KeepsUnreached closure arguments after) True := by
  let policy := Policy.within (Region.ofCall machine closure arguments)
  cases fuel with
  | zero => trivial
  | succ fuel =>
    -- Nothing of the caller's chain and control is left when the body starts.
    have hstart : policy.Holds (machine.inBody closure arguments) := by
      refine ⟨?_, Heap.within_ofCall machine closure arguments, trivial, fun entry _ => ?_⟩
      · exact policy.inBody (Environment.within_ofCall machine closure arguments)
          Machine.Reaches.callee.within fun _ hvalue => (Machine.Reaches.argument hvalue).within
      · exact CodePolicy.any_allows entry.2
    have hbody := policy.execute_keeps fuel hstart
      (closure.declaration.body.everywhere_of_vacuous CodePolicy.any_vacuous)
    refine callFunction_meets (hbody.imp ?_ ?_ id) fun _ => ?_
    · exact fun _ after h => .of_within h.environment h.heap
    · exact fun _ after h => .of_within h.2.environment h.2.heap
    · exact ⟨fun _ _ _ => rfl, fun _ _ _ => rfl, fun _ _ _ _ _ => rfl⟩

/-- A function that has captured nothing and assigns to the name of a local of its caller. -/
def Closure.assigning : Closure :=
  ⟨⟨0, ⟨1, 1⟩, some "f", [],
    .expr (.assign ⟨2, 3⟩ (.name ⟨2, 3⟩ "x") none (.boolean ⟨2, 7⟩ false))⟩, [], none⟩

theorem call_keeps_unreached_assigning :
    ∃ after, callFunction 5 .assigning [] { Machine.initial (.ofInput []) with
        environment := Environment.empty.push.bindIn 0 "x" (.boolean true) } = .done .none after ∧
      (after.environment.frame 0).get? "x" = some (.boolean true) := by
  refine ⟨_, rfl, ?_⟩
  have hkeeps := call_keeps_unreached 5 .assigning [] { Machine.initial (.ofInput []) with
    environment := Environment.empty.push.bindIn 0 "x" (.boolean true) }
  refine (hkeeps.locals 0 List.mem_cons_self (by decide) ?_ "x").trans rfl
  -- The function reaches nothing but itself.
  suffices hself : ∀ value, Machine.Reaches _ .assigning [] value → value = .function .assigning by
    intro holder hholder hmem
    cases hself _ hholder
    cases hmem
  intro value hvalue
  induction hvalue with
  | callee => rfl
  | argument hmem => cases hmem
  | global hget => cases hget
  | element _ _ ih => cases ih
  | captured _ hmem _ ih =>
    cases ih
    cases hmem

end Betty
