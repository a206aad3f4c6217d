import Betty.Proofs.Environment.Frames
import Betty.Proofs.Machine.Functions
import Betty.Proofs.Machine.Record
import Betty.Proofs.Program.Nodes

/-!
# Invariants of the machine

An invariant of a running program is given as a policy: which values may be at hand, which
names the program may declare, and what holds of the environment and the heap. The policy
has to be closed under what the single operations do. Then every computation of the machine
obeys it, whatever the program is, and it holds in every state that is passed through.

A block and a call change the active chain and change it back. So a policy may depend on
the active chain, and says what happens when an earlier chain becomes active again.

## Main definitions

* `CodePolicy`: the names that a program may declare, and the faults that it may end with.
* `Policy`: which values may be at hand, and what holds of the environment and the heap.
* `Policy.Holds`, `Policy.Keeps`: the invariant of a machine, and of a computation.
* `Policy.Stays`: the same, of a step that leaves the environment and the control alone.
* `Policy.only`: the policy that all functions at hand are those of a program.
-/

namespace Betty

/-! ### Policies -/

/-- What is asked of the program: the names that it may declare, a check of its nodes, and
the faults that it may end with if all nodes pass. -/
structure CodePolicy where
  name : String → Prop
  check : NodeCheck
  fault : Fault → Prop
  anonymous : ∀ {position : Position} {declaration : Declaration},
    check.expr (.function position declaration) →
      ∀ parameter ∈ declaration.parameters, name parameter
  nested : ∀ {declaration : Declaration}, check.stmt (.function declaration) →
    name declaration.displayName ∧ ∀ parameter ∈ declaration.parameters, name parameter
  wellFormed : ∀ {found : Fault}, found.isMalformed = false → fault found
  malformedExpr : ∀ {position : Position} {found : SyntaxFault},
    check.expr (.error position found) → fault (.malformed found)
  malformedStmt : ∀ {position : Position} {found : SyntaxFault},
    check.stmt (.error position found) → fault (.malformed found)

/-- The function may be called: its parameters are allowed and its body passes the check. -/
structure CodePolicy.Allows (policy : CodePolicy) (declaration : Declaration) : Prop where
  parameters : ∀ parameter ∈ declaration.parameters, policy.name parameter
  body : declaration.Everywhere policy.check

/-- Nothing is asked of the program. -/
def CodePolicy.any : CodePolicy where
  name _ := True
  check := ⟨fun _ => True, fun _ => True⟩
  fault _ := True
  anonymous _ _ _ := trivial
  nested _ := ⟨trivial, fun _ _ => trivial⟩
  wellFormed _ := trivial
  malformedExpr _ := trivial
  malformedStmt _ := trivial

theorem CodePolicy.any_vacuous : any.check.Vacuous :=
  ⟨fun _ => trivial, fun _ => trivial⟩

theorem CodePolicy.any_allows (declaration : Declaration) : any.Allows declaration :=
  ⟨fun _ _ => trivial, declaration.everywhere_of_vacuous any_vacuous⟩

/-- Which values may be at hand, and what holds of the environment. Functions may be at hand
if their declaration is allowed. What the environment yields may be at hand, what may be at
hand can be bound in it, and frames can be added to it. -/
structure Policy extends HeapPolicy, CodePolicy where
  environment : Environment → Prop
  function : ∀ {closure : Closure}, value (.function closure) →
    toCodePolicy.Allows closure.declaration
  /-- A function of the program has captured nothing. -/
  define : ∀ {declaration : Declaration}, toCodePolicy.Allows declaration →
    value (.function (.ofProgram declaration))
  /-- Any other function captures the active chain. -/
  close : ∀ {env : Environment} {declaration : Declaration} (ref : FunctionRef), environment env →
    toCodePolicy.Allows declaration → value (.function ⟨declaration, env.chain, some ref⟩)
  get? : ∀ {env : Environment} {name : String} {found : Value}, environment env →
    env.get? name = some found → value found
  set : ∀ {env : Environment} (name : String) {new : Value}, environment env → value new →
    environment (env.set name new)
  declareLocal : ∀ {env : Environment} {declared : String} {new : Value}, environment env →
    name declared → value new → environment (env.declareLocal declared new)
  push : ∀ {env : Environment}, environment env → environment env.push
  enterCall : ∀ {env : Environment} {closure : Closure}, environment env →
    value (.function closure) → environment (env.enterCall closure.chain)
  /-- At the end of a block or a call the earlier chain is active again. -/
  restore : ∀ {before after : Environment}, environment before → environment after →
    environment { after with chain := before.chain }

variable {α β : Type} {policy : Policy}

/-- The machine is as the policy asks. -/
structure Policy.Holds (policy : Policy) (machine : Machine) : Prop where
  environment : policy.environment machine.environment
  heap : policy.heap machine.heap
  returned : policy.value machine.control.returned
  functions : machine.functions.All policy.Allows

/-- The machine is as the policy asks, and the active chain is the earlier one. -/
structure Policy.Keeps (policy : Policy) (before after : Machine) : Prop
    extends policy.Holds after where
  chain : after.environment.chain = before.environment.chain

theorem Policy.Keeps.trans {first second third : Machine} (h : policy.Keeps first second)
    (h' : policy.Keeps second third) : policy.Keeps first third :=
  ⟨h'.toHolds, h'.chain.trans h.chain⟩

theorem Policy.Holds.keeps {machine : Machine} (h : policy.Holds machine) :
    policy.Keeps machine machine :=
  ⟨h, rfl⟩

/-- The machine is as the policy asks, and the environment and the control context are the
earlier ones. -/
structure Policy.Stays (policy : Policy) (before after : Machine) : Prop
    extends policy.Holds after where
  environment_eq : after.environment = before.environment
  control_eq : after.control = before.control

theorem Policy.Holds.stays {machine : Machine} (h : policy.Holds machine) :
    policy.Stays machine machine :=
  ⟨h, rfl, rfl⟩

theorem Policy.Stays.keeps {before after : Machine} (h : policy.Stays before after) :
    policy.Keeps before after :=
  ⟨h.toHolds, congrArg Environment.chain h.environment_eq⟩

/-! ### Names and values -/

namespace Policy

theorem local? {env : Environment} {name : String} {found : Value}
    (h : policy.environment env) (hlocal : env.local? name = some found) : policy.value found := by
  have hget : env.get? name = some found := by
    unfold Environment.get?
    rw [hlocal]
    rfl
  exact policy.get? h hget

theorem variableValue {machine : Machine} (hm : policy.Holds machine) {name : String}
    {value : Value} (h : variableValue machine name = .ok value) : policy.value value := by
  unfold Betty.variableValue at h
  split at h
  · next hget =>
    cases h
    exact policy.get? hm.environment hget
  · split at h
    · next hget =>
      cases h
      exact policy.define (hm.functions.get? hget)
    · cases h

theorem lookup {env : Environment} (henv : policy.environment env) {name : String} {value : Value}
    (h : env.lookup name = .ok value) : policy.value value := by
  unfold Environment.lookup at h
  split at h
  · next hget =>
    cases h
    exact policy.get? henv hget
  · cases h

theorem resolveFunction {machine : Machine} (hm : policy.Holds machine) {name : String}
    {closure : Closure} (h : resolveFunction machine name = .ok closure) :
    policy.value (.function closure) := by
  unfold Betty.resolveFunction at h
  split at h
  · next hlocal =>
    cases h
    exact policy.local? hm.environment hlocal
  · split at h
    · next hget =>
      cases h
      exact policy.define (hm.functions.get? hget)
    · split at h
      · next hget =>
        cases h
        exact policy.get? hm.environment hget
      · cases h
      · cases h

theorem elementAt {heap : Heap} (hheap : policy.heap heap) {collection index value : Value}
    (hcollection : policy.value collection) (h : elementAt heap collection index = .ok value) :
    policy.value value := by
  unfold Betty.elementAt at h
  split at h
  · split at h <;> cases h
    exact policy.getD hheap hcollection _
  · split at h <;> cases h
    exact policy.plain rfl
  · cases h

theorem elementPlace {heap : Heap} {refusal : Kind → TypeFault} {collection index : Value}
    {place : ListRef × Nat} (hcollection : policy.value collection)
    (h : elementPlace heap refusal collection index = .ok place) :
    policy.value (.list place.1) := by
  unfold Betty.elementPlace at h
  split at h
  · split at h <;> cases h
    exact hcollection
  · cases h

theorem setElement {heap : Heap} (hheap : policy.heap heap) {ref : ListRef}
    (hlist : policy.value (.list ref)) (position : Nat) {value : Value}
    (hvalue : policy.value value) :
    policy.heap (heap.modify ref fun items => items.setIfInBounds position value) := by
  refine policy.modify hheap hlist fun items hitems item hitem => ?_
  rcases Array.mem_or_eq_of_mem_setIfInBounds hitem with hitem | rfl
  · exact hitems item hitem
  · exact hvalue

theorem extendList {heap : Heap} (hheap : policy.heap heap) {ref : ListRef}
    (hlist : policy.value (.list ref)) {extra : Array Value}
    (hextra : ∀ item ∈ extra, policy.value item) :
    policy.heap (heap.modify ref fun items => items ++ extra) := by
  refine policy.modify hheap hlist fun items hitems item hitem => ?_
  rcases Array.mem_append.1 hitem with hitem | hitem
  · exact hitems item hitem
  · exact hextra item hitem

/-! ### Calls -/

/-- The parameters of a function are bound to its arguments. -/
theorem declareAll {env : Environment} (h : policy.environment env)
    {bindings : List (String × Value)}
    (hbindings : ∀ binding ∈ bindings, policy.name binding.1 ∧ policy.value binding.2) :
    policy.environment
      (bindings.foldl (fun env (name, value) => env.declareLocal name value) env) := by
  induction bindings generalizing env with
  | nil => exact h
  | cons binding rest ih =>
    obtain ⟨hbinding, hrest⟩ := List.forall_mem_cons.1 hbindings
    exact ih (policy.declareLocal h hbinding.1 hbinding.2) hrest

theorem inBody {env : Environment} (h : policy.environment env) {closure : Closure}
    (hclosure : policy.value (.function closure)) {arguments : List Value}
    (harguments : ∀ value ∈ arguments, policy.value value) :
    policy.environment (env.inBody closure arguments) := by
  refine policy.declareAll (policy.enterCall h hclosure) fun binding hbinding => ?_
  obtain ⟨hname, hvalue⟩ := List.of_mem_zip hbinding
  exact ⟨(policy.function hclosure).parameters _ hname, harguments _ hvalue⟩

theorem result {machine : Machine} (h : policy.Holds machine) :
    policy.value machine.control.result := by
  unfold Control.result
  split
  · exact h.returned
  · exact policy.plain rfl

end Policy

/-! ### Blocks, calls and the control context -/

namespace Policy.Holds

variable {machine after : Machine}

theorem enterBlock (h : policy.Holds machine) : policy.Holds machine.enterBlock :=
  ⟨policy.push h.environment, h.heap, h.returned, h.functions⟩

theorem inBody (h : policy.Holds machine) {closure : Closure}
    (hclosure : policy.value (.function closure)) {arguments : List Value}
    (harguments : ∀ value ∈ arguments, policy.value value) :
    policy.Holds (machine.inBody closure arguments) :=
  ⟨policy.inBody h.environment hclosure harguments, h.heap, policy.plain rfl, h.functions⟩

/-- Streams are not asked about. -/
theorem onConsole (h : policy.Holds machine) (action : Action Fault Console α) :
    (Eval.onConsole action machine).Meets
      (fun _ after => policy.Holds after ∧ after.environment = machine.environment)
      (fun _ after => policy.Holds after ∧ after.environment = machine.environment) True := by
  simp only [Eval.onConsole]
  cases action machine.console with
  | done value console => exact ⟨⟨h.environment, h.heap, h.returned, h.functions⟩, rfl⟩
  | failed fault console => exact ⟨⟨h.environment, h.heap, h.returned, h.functions⟩, rfl⟩
  | outOfFuel => trivial

/-- The value to return is all of the control context that the policy asks about. -/
theorem turn (h : policy.Holds machine) {change : Control → Control}
    (hreturned : policy.value (change machine.control).returned) :
    policy.Holds (machine.turn change) :=
  ⟨h.environment, h.heap, hreturned, h.functions⟩

/-- Around a block the active chain is the same. -/
theorem leaveBlock (h : policy.Holds machine) (hafter : policy.Keeps machine.enterBlock after) :
    policy.Keeps machine after.leaveBlock := by
  have hchain : after.environment.chain.tail = machine.environment.chain := by
    rw [hafter.chain]
    rfl
  have hrestored := policy.restore h.environment hafter.environment
  rw [← hchain] at hrestored
  exact ⟨⟨hrestored, hafter.heap, hafter.returned, hafter.functions⟩, hchain⟩

/-- The caller gets its chain and its control context back. -/
theorem leaveBody (h : policy.Holds machine) (hafter : policy.Holds after) :
    policy.Keeps machine (machine.leaveBody after) :=
  ⟨⟨policy.restore h.environment hafter.environment, hafter.heap, h.returned, hafter.functions⟩,
    rfl⟩

end Policy.Holds

/-! ### Functions of the program -/

/-- The policy that no function is at hand but those that the program may contain. -/
def Policy.only (code : CodePolicy) : Policy where
  toHeapPolicy := .only code.Allows
  toCodePolicy := code
  environment := Environment.Only code.Allows
  function h := h
  define h := h
  close _ _ h := h
  get? henv hget := henv.get? hget
  set name _ henv hnew := henv.set name hnew
  declareLocal henv _ hnew := henv.declareLocal _ hnew
  push henv := henv.push
  enterCall henv _ := henv.enterCall _
  restore _ hafter := ⟨hafter.frames, hafter.globals⟩

variable {code : CodePolicy}

theorem Machine.Only.holds {machine : Machine} (h : machine.Only code.Allows) :
    (Policy.only code).Holds machine :=
  ⟨h.environment, h.heap, h.returned, h.functions⟩

theorem Policy.Holds.only {machine : Machine} (h : (Policy.only code).Holds machine) :
    machine.Only code.Allows :=
  ⟨h.environment, h.heap, h.returned, h.functions⟩

theorem Value.only_any (value : Value) : value.Only CodePolicy.any.Allows := by
  cases value with
  | function closure => exact CodePolicy.any_allows closure.declaration
  | _ => trivial

/-- Nothing is asked of a machine. -/
theorem Policy.holds_any (machine : Machine) : (Policy.only .any).Holds machine :=
  ⟨⟨fun _ _ entry _ => entry.2.only_any, fun entry _ => entry.2.only_any⟩,
    fun _ _ value _ => value.only_any, machine.control.returned.only_any,
    fun entry _ => CodePolicy.any_allows entry.2⟩

end Betty
