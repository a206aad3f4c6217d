import Betty.Proofs.Machine.Fuel
import Betty.Proofs.Reach

/-!
# Compound assignment

A compound assignment `x op= e` combines the value of a variable with another value. It does
what `x = x op e` does, except that adding to a list changes that list: the variable, and
everything else that holds the list, sees the new elements. The two forms evaluate `x` and
`e` in different orders, so `e` must not touch `x`.

## Main definitions

* `Environment.SameBindings`: every name means the same in every frame.
* `Outcome.SameButPlace`: outcomes that differ at most in where an error is placed.
* `combined`: the old value of a place combined with another one.
* `Machine.Updates`: one list has other elements, and nothing else is different.

## Main results

* `Environment.set_sameBindings`: binding a name to its value again changes nothing.
* `evaluate_grows`: evaluation never gives a list back.
* `compound_assignment`: both kinds of compound assignment.
-/

namespace Betty

/-! ### Names -/

/-- A table in which a name is given the value that it has. -/
theorem Table.get?_put_self {α : Type} {table : Table α} {name : String} {value : α}
    (h : table.get? name = some value) (other : String) :
    (table.put name value).get? other = table.get? other := by
  rw [Table.get?_put]
  split
  · next heq => rw [heq, h]
  · rfl

namespace Environment

/-- The same frames are active, and every name means the same in every frame and among the
global variables. -/
structure SameBindings (before after : Environment) : Prop where
  chain : after.chain = before.chain
  size : after.frames.size = before.frames.size
  frame : ∀ ref name, (after.frame ref).get? name = (before.frame ref).get? name
  globals : ∀ name, after.globals.get? name = before.globals.get? name

theorem SameBindings.get? {before after : Environment} (h : before.SameBindings after)
    (name : String) : after.get? name = before.get? name := by
  unfold Environment.get? local?
  simp only [h.chain, h.frame, h.globals]

/-- A name means what it means in the innermost frame that binds it. -/
theorem get?_eq_holder? (env : Environment) (name : String) :
    env.get? name = match env.holder? name with
      | some ref => (env.frame ref).get? name
      | none => env.globals.get? name := by
  unfold get? local? holder?
  induction env.chain with
  | nil => rfl
  | cons ref rest ih =>
    cases hfound : (env.frame ref).get? name with
    | none => simpa [Table.contains, hfound] using ih
    | some value => simp [Table.contains, hfound]

/-- Binding a name again to the value that it has changes nothing. -/
theorem set_sameBindings {env : Environment} {name : String} {value : Value}
    (h : env.get? name = some value) : env.SameBindings (env.set name value) := by
  -- The assignment goes to the very frame that the name is looked up in.
  rw [get?_eq_holder?] at h
  unfold set
  cases hholder : env.holder? name with
  | some holder =>
    rw [hholder] at h
    refine ⟨rfl, env.size_bindIn holder name value, fun ref other => ?_, fun _ => rfl⟩
    rw [frame_bindIn]
    split
    · next heq =>
      rw [heq.1]
      exact Table.get?_put_self h other
    · rfl
  | none =>
    rw [hholder] at h
    have hglobal : env.globals.contains name := by
      simp only at h
      simp [Table.contains, h]
    simp only [hglobal, if_true]
    exact ⟨rfl, rfl, fun _ _ => rfl, Table.get?_put_self h⟩

end Environment

/-! ### Lists that exist -/

/-- Evaluation never gives a list back. -/
theorem evaluate_grows {fuel : Nat} {expr : Expr} {machine after : Machine} {value : Value}
    (h : evaluate fuel expr machine = .done value after) :
    machine.heap.cells.size ≤ after.heap.cells.size := by
  have hkeeps := (Policy.within (Region.whole machine)).evaluate_keeps fuel machine.holds_whole
    (expr.everywhere_of_vacuous CodePolicy.any_vacuous)
  rw [h] at hkeeps
  exact hkeeps.2.heap.size

/-! ### Outcomes up to the place of an error -/

namespace Outcome

variable {σ α : Type}

/-- The outcomes are the same, except that an error may be placed elsewhere. -/
inductive SameButPlace : Outcome RuntimeError σ α → Outcome RuntimeError σ α → Prop
  | done (value : α) (state : σ) : SameButPlace (.done value state) (.done value state)
  | failed {first second : RuntimeError} (h : first.fault = second.fault) (state : σ) :
      SameButPlace (.failed first state) (.failed second state)

variable {first second : Outcome RuntimeError σ α}

theorem SameButPlace.symm (h : first.SameButPlace second) : second.SameButPlace first := by
  cases h with
  | done value state => exact .done value state
  | failed h state => exact .failed h.symm state

/-- Placing an error leaves the outcome the same up to places. -/
theorem SameButPlace.locate (h : first.SameButPlace second) (position : Position) :
    (first.locate position).SameButPlace second := by
  cases h with
  | done value state => exact .done value state
  | failed h state => exact .failed ((RuntimeError.fault_locate _ position).trans h) state

theorem sameButPlace_self (h : first ≠ .outOfFuel) : first.SameButPlace first := by
  cases first with
  | done value state => exact .done value state
  | failed error state => exact .failed rfl state
  | outOfFuel => exact absurd rfl h

theorem locate_ne_outOfFuel (h : first ≠ .outOfFuel) (position : Position) :
    first.locate position ≠ .outOfFuel := by
  cases first with
  | outOfFuel => exact absurd rfl h
  | _ => simp [Outcome.locate]

end Outcome

/-! ### What is assigned -/

/-- An operator makes a new list or a text, or it leaves the heap alone. -/
theorem applyBinary_cases (op : BinaryOp) (left right : Value) (heap : Heap) :
    (∃ items, applyBinary op left right heap = HeapAction.newList items heap) ∨
      (∃ text, applyBinary op left right heap = HeapAction.newText text heap) ∨
      (∃ value, applyBinary op left right heap = .done value heap) ∨
      ∃ fault, applyBinary op left right heap = .failed fault heap := by
  have hresult : ∀ {α : Type} (result : Except TypeFault α) (make : α → Value),
      (∃ value, HeapAction.ofResult result make heap = .done value heap) ∨
        ∃ fault, HeapAction.ofResult result make heap = .failed fault heap := by
    intro α result make
    cases result with
    | ok value => exact .inl ⟨make value, rfl⟩
    | error fault => exact .inr ⟨.type fault, rfl⟩
  cases op with
  | add =>
    change (∃ items, applyAdd left right heap = HeapAction.newList items heap) ∨
      (∃ text, applyAdd left right heap = HeapAction.newText text heap) ∨
      (∃ value, applyAdd left right heap = .done value heap) ∨
      ∃ fault, applyAdd left right heap = .failed fault heap
    unfold applyAdd
    split
    · exact .inr (.inl ⟨_, rfl⟩)
    · exact .inr (.inl ⟨_, rfl⟩)
    · exact .inl ⟨_, rfl⟩
    · exact .inl ⟨_, rfl⟩
    · exact .inl ⟨_, rfl⟩
    · exact .inr (.inr (hresult _ _))
  | _ => exact .inr (.inr (hresult _ _))

theorem applyBinary_ne_outOfFuel (op : BinaryOp) (left right : Value) (heap : Heap) :
    applyBinary op left right heap ≠ .outOfFuel := by
  rcases applyBinary_cases op left right heap with
    ⟨items, h⟩ | ⟨text, h⟩ | ⟨value, h⟩ | ⟨fault, h⟩ <;> rw [h]
  · simp [HeapAction.newList]
  · simp [HeapAction.newText]
  · simp
  · simp

/-- The old value of a place combined with another one, as a computation on the heap. -/
def combined (op : BinaryOp) (current value : Value) : HeapAction Value :=
  match current, op with
  | .list ref, .add => fun heap =>
    .done current (heap.modify ref fun items => items ++ addedItems heap value)
  | _, _ => applyBinary op current value

theorem run_combine (op : BinaryOp) (current value : Value) :
    (Plan.combine op current value).run = Eval.onHeap (combined op current value) := by
  cases current with
  | list ref => cases op <;> rfl
  | _ => rfl

/-- Values are combined by the operator, unless something is added to a list. -/
theorem combined_eq_applyBinary {op : BinaryOp} {current : Value}
    (h : op = .add → ∀ ref, current ≠ .list ref) (value : Value) :
    combined op current value = applyBinary op current value := by
  cases current with
  | list ref =>
    cases op with
    | add => exact absurd rfl (h rfl ref)
    | _ => rfl
  | _ => rfl

/-- Combining values changes a list by adding to it, or it is what the operator does. -/
theorem combined_cases (op : BinaryOp) (current value : Value) (heap : Heap) :
    (∃ ref, op = .add ∧ current = .list ref ∧ combined op current value heap =
      .done (.list ref) (heap.modify ref fun items => items ++ addedItems heap value)) ∨
    combined op current value heap = applyBinary op current value heap := by
  by_cases hadd : op = .add ∧ ∃ ref, current = .list ref
  · obtain ⟨rfl, ref, rfl⟩ := hadd
    exact .inl ⟨ref, rfl, rfl, rfl⟩
  · rw [combined_eq_applyBinary fun hop ref hlist => hadd ⟨hop, ref, hlist⟩]
    exact .inr rfl

theorem combined_ne_outOfFuel (op : BinaryOp) (current value : Value) (heap : Heap) :
    combined op current value heap ≠ .outOfFuel := by
  rcases combined_cases op current value heap with ⟨ref, -, -, h⟩ | h <;> rw [h]
  · simp
  · exact applyBinary_ne_outOfFuel op current value heap

/-- The outcome of assigning the result of a computation on the heap to a name. -/
def Machine.store (machine : Machine) (name : String) :
    Outcome Fault Heap Value → Outcome RuntimeError Machine Value
  | .done value heap =>
    .done value { machine with heap, environment := machine.environment.set name value }
  | .failed fault heap => .failed (.unplaced fault) { machine with heap }
  | .outOfFuel => .outOfFuel

theorem Machine.store_ne_outOfFuel {machine : Machine} {name : String}
    {outcome : Outcome Fault Heap Value} (h : outcome ≠ .outOfFuel) :
    machine.store name outcome ≠ .outOfFuel := by
  cases outcome with
  | outOfFuel => exact absurd rfl h
  | _ => simp [Machine.store]

section Forms

variable {fuel : Nat} {expr : Expr} {machine after : Machine} {old value : Value} {name : String}

/-- An assignment to a name, as a computation: the right side, what is made of it, and the
binding. -/
theorem run_assignTo_name (fuel : Nat) (op : Option BinaryOp) (target : Position) (name : String)
    (expr : Expr) :
    (Plan.assignTo (fuel + 1) (.name target name) op expr).run = (do
      let value ← evaluate fuel expr
      let updated ← (Plan.assignedValue op (Plan.located target
        (Plan.read name fun machine => machine.environment.lookup name)) value).run
      Eval.updateEnvironment fun env => env.set name updated
      return updated) := by
  rw [Plan.assignTo]
  rfl

/-- An assignment to an element: the place is found before the element is read. -/
theorem run_assignTo_index (fuel : Nat) (op : Option BinaryOp) (target : Position)
    (collection index expr : Expr) :
    (Plan.assignTo (fuel + 1) (.index target collection index) op expr).run = (do
      let value ← evaluate fuel expr
      let collection ← evaluate fuel collection
      let index ← evaluate fuel index
      let (ref, position) ← Eval.located target <| Eval.query fun machine =>
        elementPlace machine.heap .elementAssignment collection index
      let updated ← (Plan.assignedValue op (Plan.fetch
        (fun machine => .ok (elementValue machine ref position)) fun element => [element])
          value).run
      Eval.updateHeap fun heap => heap.modify ref fun items => items.setIfInBounds position updated
      return updated) := by
  rw [Plan.assignTo]
  rfl

/-- What is assigned: the value, or the old one combined with it. -/
theorem run_assignedValue (op : Option BinaryOp) (current : Plan Value) (value : Value) :
    (Plan.assignedValue op current value).run = match op with
      | none => pure value
      | some op => current.run >>= fun old => Eval.onHeap (combined op old value) := by
  cases op with
  | none => rfl
  | some op =>
    simp only [← run_combine]
    rfl

/-- The compound form evaluates the right side and then looks the variable up. -/
theorem evaluate_compound (hvalue : evaluate fuel expr machine = .done value after)
    (hkept : after.environment.get? name = some old) (op : BinaryOp) (place target : Position) :
    evaluate (fuel + 2) (.assign place (.name target name) (some op) expr) machine =
      (after.store name (combined op old value after.heap)).locate place := by
  have hlookup : after.environment.lookup name = .ok old := by
    simp [Environment.lookup, hkept]
  have hread : ((Eval.query fun machine => machine.environment.lookup name).located target) after =
      .done old after := by
    simp only [Eval.located, Eval.query, hlookup]
  change Eval.located place (Plan.assignTo (fuel + 1) (.name target name) (some op) expr).run
    machine = _
  rw [run_assignTo_name]
  simp only [run_assignedValue, Plan.run, Eval.located, Bind.bind, Action.bind, hvalue] at hread ⊢
  rw [hread]
  simp only [Eval.onHeap]
  cases combined op old value after.heap <;> rfl

/-- The spelled out form looks the variable up and then evaluates the right side. -/
theorem evaluate_spelled (hbound : machine.environment.get? name = some old)
    (hvalue : evaluate fuel expr machine = .done value after) (op : BinaryOp)
    (place target sum read : Position) :
    evaluate (fuel + 3) (.assign place (.name target name) none
        (.binary sum (.name read name) op expr)) machine =
      ((after.store name (applyBinary op old value after.heap)).locate sum).locate place := by
  -- The right side has been evaluated with this fuel, so it is enough for a name.
  have hread : evaluate fuel (.name read name) machine = .done old machine := by
    cases fuel with
    | zero => cases hvalue
    | succ fuel =>
      change Eval.located read (Eval.query fun machine => variableValue machine name) machine = _
      simp only [Eval.located, Eval.query, variableValue, hbound]
  have hsum : evaluate (fuel + 1) (.binary sum (.name read name) op expr) machine =
      (Eval.onHeap (applyBinary op old value) after).locate sum := by
    change Eval.located sum (evaluate fuel (.name read name) >>= fun left =>
      evaluate fuel expr >>= fun right => Eval.onHeap (applyBinary op left right)) machine = _
    simp only [Eval.located, Bind.bind, Action.bind, hread, hvalue]
    cases Eval.onHeap (applyBinary op old value) after <;> rfl
  change Eval.located place (Plan.assignTo (fuel + 2) (.name target name) none _).run machine = _
  rw [run_assignTo_name]
  simp only [Eval.located, Bind.bind, Action.bind, hsum, Eval.onHeap]
  cases applyBinary op old value after.heap <;> rfl

end Forms

/-! ### Both kinds -/

/-- One list has these elements now; every other list, every binding and everything else is
as before. -/
structure Machine.Updates (before after : Machine) (ref : ListRef) (elements : Array Value) :
    Prop where
  elements : after.heap.items ref = elements
  lists : ∀ other, other ≠ ref → after.heap.items other = before.heap.items other
  size : after.heap.cells.size = before.heap.cells.size
  texts : after.heap.texts = before.heap.texts
  created : after.heap.functions = before.heap.functions
  bindings : before.environment.SameBindings after.environment
  control : after.control = before.control
  functions : after.functions = before.functions
  console : after.console = before.console

/-- Changing a list, and binding a name again to the value that it has. -/
theorem Machine.updates_modify {machine : Machine} {name : String} {old : Value} {ref : ListRef}
    (hbound : machine.environment.get? name = some old) (href : ref < machine.heap.cells.size)
    (change : Array Value → Array Value) :
    machine.Updates { machine with
      heap := machine.heap.modify ref change
      environment := machine.environment.set name old } ref (change (machine.heap.items ref)) where
  elements := by simp [Heap.items_modify, href]
  lists other hother := by simp [Heap.items_modify, hother]
  size := machine.heap.size_modify ref change
  texts := rfl
  created := rfl
  bindings := Environment.set_sameBindings hbound
  control := rfl
  functions := rfl
  console := rfl

/-- A variable `x` has a value, and the evaluation of `e` succeeds and leaves it that value.
Unless something is added to a list, `x op= e` and `x = x op e` end in the same way, up to the
place of an error. If something is added to a list whose elements `e` has not changed, `x op= e`
yields this list, with the new elements after the old ones; every name that held the list holds
it still, and nothing else is different. -/
theorem compound_assignment {name : String} {op : BinaryOp} {expr : Expr}
    {machine after : Machine} {old value : Value}
    (hbound : machine.environment.get? name = some old)
    (hvalue : expr.Ends machine (.done value after))
    (hkept : after.environment.get? name = some old) (place target : Position) :
    ((op = .add → ∀ ref, old ≠ .list ref) → ∀ place' target' sum read : Position,
      ∃ combined spelled,
        (Expr.assign place (.name target name) (some op) expr).Ends machine combined ∧
        (Expr.assign place' (.name target' name) none
          (.binary sum (.name read name) op expr)).Ends machine spelled ∧
        combined.SameButPlace spelled) ∧
    (∀ ref, op = .add → old = .list ref → ref < machine.heap.cells.size →
      after.heap.items ref = machine.heap.items ref →
      ∃ final,
        (Expr.assign place (.name target name) (some op) expr).Ends machine
          (.done (.list ref) final) ∧
        after.Updates final ref (machine.heap.items ref ++ addedItems after.heap value) ∧
        (value = .list ref →
          final.heap.items ref = machine.heap.items ref ++ machine.heap.items ref) ∧
        ∀ (other : String) (read : Position), after.environment.get? other = some (.list ref) →
          (Expr.name read other).Ends final (.done (.list ref) final)) := by
  obtain ⟨-, fuel, hvalue⟩ := hvalue
  have hcompound := evaluate_compound hvalue hkept op place target
  refine ⟨fun hplain place' target' sum read => ?_, ?_⟩
  · rw [combined_eq_applyBinary hplain] at hcompound
    have hends : after.store name (applyBinary op old value after.heap) ≠ .outOfFuel :=
      Machine.store_ne_outOfFuel (applyBinary_ne_outOfFuel op old value after.heap)
    refine ⟨_, _, ⟨Outcome.locate_ne_outOfFuel hends _, _, hcompound⟩,
      ⟨?_, _, evaluate_spelled hbound hvalue op place' target' sum read⟩, ?_⟩
    · exact Outcome.locate_ne_outOfFuel (Outcome.locate_ne_outOfFuel hends _) _
    · exact (((Outcome.sameButPlace_self hends).locate sum).locate place').symm.locate place
  · rintro ref rfl rfl href hitems
    have hafter : ref < after.heap.cells.size := Nat.lt_of_lt_of_le href (evaluate_grows hvalue)
    have hupdates := Machine.updates_modify hkept hafter (· ++ addedItems after.heap value)
    rw [hitems] at hupdates
    refine ⟨_, ⟨by simp, _, hcompound⟩, hupdates, ?_, fun other read hother => ?_⟩
    -- What is added to the list is read before the list is changed.
    · rintro rfl
      rw [hupdates.elements, addedItems, hitems]
    · refine ⟨by simp, 1, ?_⟩
      rw [← hupdates.bindings.get?] at hother
      change Eval.located read (Eval.query fun machine => variableValue machine other) _ = _
      simp only [Eval.located, Eval.query, variableValue, hother]

/-- Two variables hold one list, and a third one holds a text. -/
def Machine.aliased : Machine :=
  { Machine.initial (.ofInput []) with
    environment :=
      ⟨#[⟨[("held", .list 0), ("label", .text ⟨0, "ok"⟩), ("same", .list 0)]⟩], [0], .empty⟩
    heap := ⟨#[#[.boolean true]], (Pool.empty.intern "ok").2, 0⟩ }

/-- `held += held` doubles the list, which `same` holds as well, and `label -= true` fails as
`label = label - true` does. -/
theorem compound_assignment_aliased :
    let machine := Machine.aliased
    let start : Position := ⟨1, 1⟩
    (∃ final,
      (Expr.assign start (.name start "held") (some .add) (.name start "held")).Ends machine
        (.done (.list 0) final) ∧
      final.heap.items 0 = #[.boolean true, .boolean true] ∧
      (Expr.name start "same").Ends final (.done (.list 0) final)) ∧
    ∃ combined spelled,
      (Expr.assign start (.name start "label") (some .sub) (.boolean start true)).Ends machine
        combined ∧
      (Expr.assign start (.name start "label") none
        (.binary start (.name start "label") .sub (.boolean start true))).Ends machine spelled ∧
      combined.SameButPlace spelled := by
  intro machine start
  constructor
  · have hheld : machine.environment.get? "held" = some (.list 0) := rfl
    have hread : (Expr.name start "held").Ends machine (.done (.list 0) machine) :=
      ⟨by simp, 1, rfl⟩
    obtain ⟨final, hends, -, hdoubled, halias⟩ :=
      (compound_assignment hheld hread hheld start start).2 0 rfl rfl (by decide) rfl
    exact ⟨final, hends, hdoubled rfl, halias "same" start rfl⟩
  · have hlabel : machine.environment.get? "label" = some (.text ⟨0, "ok"⟩) := rfl
    have hvalue : (Expr.boolean start true).Ends machine (.done (.boolean true) machine) :=
      ⟨by simp, 1, rfl⟩
    exact (compound_assignment hlabel hvalue hlabel start start).1 (by simp) start start start start

end Betty
