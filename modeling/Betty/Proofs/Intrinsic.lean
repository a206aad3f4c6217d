import Betty.Evaluate
import Betty.Proofs.Heap.Policy
import Betty.Proofs.Number.Exact

/-!
# What the functions on lists change

The functions `append`, `remove` and `removeat` change one list, and yield a new list with the
elements that this one has then. They find out whether they fail before they change anything.
The same is true of all functions that do not use the streams.

## Main definitions

* `Machine.ListChanged`: one list has new elements, of which there is a copy, and all else is
  the same.
* `Value.IsPosition`: the value is a number that is exactly the position.
* `Heap.WithoutFirst`: what is left without the first element that is equal to a value.
* `HeapAction.Atomic`: a computation that leaves the heap as it was if it fails.

## Main results

* `Intrinsic.changeList_ok`, `Intrinsic.changeList_error`: how a change of a list ends.
* `Intrinsic.indexIn_eq_ok_iff`: which values are positions.
* `Intrinsic.onHeap_atomic`: no function that does without the streams fails after a change.
* `list_intrinsics_atomic`: what the three functions do, as a whole or not at all.
-/

namespace Betty

/-! ### Changes of one list -/

/-- The list has these elements afterwards, and so has a new list. All other lists, all bindings
and the streams are as before, so that whatever referred to the list still does. -/
structure Machine.ListChanged (before : Machine) (ref : ListRef) (items : Array Value)
    (copy : ListRef) (after : Machine) : Prop where
  new : copy = before.heap.cells.size
  size : after.heap.cells.size = before.heap.cells.size + 1
  distinct : copy ≠ ref
  changed : after.heap.items ref = items
  copied : after.heap.items copy = items
  others : ∀ other, other ≠ ref → other ≠ copy →
    after.heap.items other = before.heap.items other
  texts : after.heap.texts = before.heap.texts
  created : after.heap.functions = before.heap.functions
  environment : after.environment = before.environment
  control : after.control = before.control
  functions : after.functions = before.functions
  console : after.console = before.console

/-- The call yields a new list, after this change of the list. -/
def Eval.ChangesList (action : Eval Value) (machine : Machine) (ref : ListRef)
    (items : Array Value) : Prop :=
  ∃ copy after, action machine = .done (.list copy) after ∧
    machine.ListChanged ref items copy after

/-- The call fails and leaves everything as it was. -/
def Eval.FailsUnchanged (action : Eval Value) (machine : Machine) : Prop :=
  ∃ error, action machine = .failed error machine

/-- The value is a number, and exactly this position. -/
def Value.IsPosition (value : Value) (position : Nat) : Prop :=
  ∃ x, value = .number x ∧ Number.rational? x = some (position : ℚ)

/-- What is left of the elements without the first one that is equal to the value, if there is
one. -/
inductive Heap.WithoutFirst (heap : Heap) (value : Value) (items : Array Value) :
    Array Value → Prop
  | removed (position : Nat) (hposition : position < items.size)
    (hequal : equalValues heap items[position] value = true)
    (hfirst : ∀ (i : Nat) (_ : i < position), equalValues heap items[i] value = false) :
    WithoutFirst heap value items (items.eraseIdx position)
  | absent (h : ∀ element ∈ items, equalValues heap element value = false) :
    WithoutFirst heap value items items

theorem Eval.onHeap_done {action : HeapAction Value} {machine : Machine} {value : Value}
    {heap : Heap} (h : action machine.heap = .done value heap) :
    Eval.onHeap action machine = .done value { machine with heap } := by
  unfold Eval.onHeap
  dsimp only
  rw [h]

theorem Eval.onHeap_failed {action : HeapAction Value} {machine : Machine} {fault : Fault}
    {heap : Heap} (h : action machine.heap = .failed fault heap) :
    Eval.onHeap action machine = .failed (.unplaced fault) { machine with heap } := by
  unfold Eval.onHeap
  dsimp only
  rw [h]

/-- A list is changed, and then there is a new list with its elements. -/
theorem Machine.listChanged_alloc {machine : Machine} {ref : ListRef}
    (h : ref < machine.heap.cells.size) (edit : Array Value → Array Value) :
    machine.ListChanged ref (edit (machine.heap.items ref)) machine.heap.cells.size
      { machine with heap :=
        ((machine.heap.modify ref edit).alloc (edit (machine.heap.items ref))).2 } where
  new := rfl
  size := by simp [Heap.alloc]
  distinct := Nat.ne_of_gt h
  changed := by
    rw [Heap.items_alloc, Heap.size_modify, if_neg (Nat.ne_of_lt h), Heap.items_modify,
      if_pos ⟨rfl, h⟩]
  copied := by rw [Heap.items_alloc, Heap.size_modify, if_pos rfl]
  others other hother hcopy := by
    rw [Heap.items_alloc, Heap.size_modify, if_neg hcopy, Heap.items_modify,
      if_neg fun hsame => hother hsame.1]
  texts := rfl
  created := rfl
  environment := rfl
  control := rfl
  functions := rfl
  console := rfl

/-! ### Computations that fail -/

/-- A computation that leaves the heap as it was if it fails. -/
def HeapAction.Atomic {α : Type} (action : HeapAction α) : Prop :=
  ∀ heap fault after, action heap = .failed fault after → after = heap

namespace HeapAction.Atomic

variable {α : Type}

theorem pure (value : α) : Atomic (Pure.pure value) :=
  fun _ _ _ h => by cases h

theorem gets (view : Heap → α) : Atomic (Action.gets view) :=
  fun _ _ _ h => by cases h

theorem newList (items : Array Value) : Atomic (HeapAction.newList items) :=
  fun _ _ _ h => by cases h

theorem newText (text : String) : Atomic (HeapAction.newText text) :=
  fun _ _ _ h => by cases h

theorem exhausted : @Atomic α Action.exhausted :=
  fun _ _ _ h => by cases h

theorem fail (fault : Fault) : @Atomic α (Action.fail fault) := by
  intro heap fault after h
  cases h
  rfl

end HeapAction.Atomic

namespace Intrinsic

variable {machine : Machine} {ref : ListRef} {intrinsic : Intrinsic}
  {change : Heap → Array Value → Except Fault (Array Value → Array Value)}

/-! ### The change of a list -/

theorem changeList_ok (hlist : ref < machine.heap.cells.size) {edit : Array Value → Array Value}
    {items : Array Value} (h : change machine.heap (machine.heap.items ref) = .ok edit)
    (hedit : edit (machine.heap.items ref) = items) :
    (Eval.onHeap (changeList intrinsic (.list ref) change)).ChangesList machine ref items := by
  subst hedit
  have hitems : (machine.heap.modify ref edit).items ref = edit (machine.heap.items ref) := by
    rw [Heap.items_modify, if_pos ⟨rfl, hlist⟩]
  -- The new list is made from the elements that the changed heap has for the list.
  refine ⟨_, _, Eval.onHeap_done ?_, machine.listChanged_alloc hlist edit⟩
  unfold changeList
  dsimp only
  rw [h]
  dsimp only
  rw [hitems, HeapAction.newList]
  simp only [Heap.alloc, Heap.size_modify]

theorem changeList_erase (hlist : ref < machine.heap.cells.size) {position : Nat}
    (hposition : position < (machine.heap.items ref).size)
    (h : change machine.heap (machine.heap.items ref) =
      .ok fun items => items.eraseIdxIfInBounds position) :
    (Eval.onHeap (changeList intrinsic (.list ref) change)).ChangesList machine ref
      ((machine.heap.items ref).eraseIdx position) :=
  changeList_ok hlist h (dif_pos hposition)

theorem changeList_error {fault : Fault}
    (h : change machine.heap (machine.heap.items ref) = .error fault) :
    (Eval.onHeap (changeList intrinsic (.list ref) change)).FailsUnchanged machine := by
  refine ⟨.unplaced fault, Eval.onHeap_failed ?_⟩
  unfold changeList
  dsimp only
  rw [h]

theorem changeList_of_not_list {argument : Value} (h : ∀ ref, argument ≠ .list ref) :
    (Eval.onHeap (changeList intrinsic argument change)).FailsUnchanged machine := by
  refine ⟨.unplaced (.type (.listArgument intrinsic.name argument.kind)), Eval.onHeap_failed ?_⟩
  cases argument with
  | list ref => exact absurd rfl (h ref)
  | _ => rfl

/-! ### Positions -/

theorem isPosition_number_iff {x : Float} {position : Nat} :
    (Value.number x).IsPosition position ↔ Number.integer? x = some (position : ℤ) := by
  rw [Number.integer?_eq_some_iff]
  constructor
  · rintro ⟨_, ⟨⟩, h⟩
    exact_mod_cast h
  · exact fun h => ⟨x, rfl, by exact_mod_cast h⟩

theorem indexIn_eq_ok_iff {index : Value} {length position : Nat} :
    indexIn index length = .ok position ↔ index.IsPosition position ∧ position < length := by
  cases index with
  | number x =>
    rw [isPosition_number_iff]
    unfold indexIn
    dsimp only
    cases Number.integer? x with
    | none => simp
    | some n =>
      simp only [Option.some.injEq]
      split <;> simp <;> omega
  | _ => simp [indexIn, Value.IsPosition]

/-! ### The functions that change a list -/

theorem append_changesList (fuel : Nat) (hlist : ref < machine.heap.cells.size) (value : Value) :
    (append.apply fuel [.list ref, value]).ChangesList machine ref
      ((machine.heap.items ref).push value) := by
  change (Eval.onHeap (appendTo (.list ref) value)).ChangesList machine ref _
  unfold appendTo
  exact changeList_ok hlist rfl rfl

theorem remove_changesList (fuel : Nat) (hlist : ref < machine.heap.cells.size) (value : Value) :
    ∃ rest, machine.heap.WithoutFirst value (machine.heap.items ref) rest ∧
      (remove.apply fuel [.list ref, value]).ChangesList machine ref rest := by
  change ∃ rest, _ ∧ (Eval.onHeap (removeFrom (.list ref) value)).ChangesList machine ref rest
  unfold removeFrom
  cases hfound : (machine.heap.items ref).findIdx?
      fun element => equalValues machine.heap element value with
  | none =>
    refine ⟨_, .absent (Array.findIdx?_eq_none_iff.1 hfound), changeList_ok hlist ?_ (id_eq _)⟩
    rw [hfound]
  | some position =>
    obtain ⟨hposition, hequal, hfirst⟩ := Array.findIdx?_eq_some_iff_getElem.1 hfound
    refine ⟨_, .removed position hposition hequal fun i hi => by simpa using hfirst i hi, ?_⟩
    apply changeList_erase hlist hposition
    rw [hfound]

theorem removeat_changesList (fuel : Nat) (hlist : ref < machine.heap.cells.size) {index : Value}
    {position : Nat} (hposition : position < (machine.heap.items ref).size)
    (hindex : index.IsPosition position) :
    (removeat.apply fuel [.list ref, index]).ChangesList machine ref
      ((machine.heap.items ref).eraseIdx position) := by
  change (Eval.onHeap (removeAt (.list ref) index)).ChangesList machine ref _
  unfold removeAt
  apply changeList_erase hlist hposition
  rw [indexIn_eq_ok_iff.2 ⟨hindex, hposition⟩]

theorem removeat_fails (fuel : Nat) {index : Value}
    (h : ¬ ∃ position < (machine.heap.items ref).size, index.IsPosition position) :
    (removeat.apply fuel [.list ref, index]).FailsUnchanged machine := by
  change (Eval.onHeap (removeAt (.list ref) index)).FailsUnchanged machine
  unfold removeAt
  cases hfound : indexIn index (machine.heap.items ref).size with
  | ok position =>
    obtain ⟨hindex, hposition⟩ := indexIn_eq_ok_iff.1 hfound
    exact absurd ⟨position, hposition, hindex⟩ h
  | error fault =>
    apply changeList_error
    rw [hfound]

theorem changes_need_list (fuel : Nat) {list : Value} (h : ∀ ref, list ≠ .list ref) (value : Value)
    (hintrinsic : intrinsic ∈ [append, remove, removeat]) :
    (intrinsic.apply fuel [list, value]).FailsUnchanged machine := by
  simp only [List.mem_cons, List.not_mem_nil, or_false] at hintrinsic
  rcases hintrinsic with rfl | rfl | rfl
  · change (Eval.onHeap (appendTo list value)).FailsUnchanged machine
    exact changeList_of_not_list h
  · change (Eval.onHeap (removeFrom list value)).FailsUnchanged machine
    exact changeList_of_not_list h
  · change (Eval.onHeap (removeAt list value)).FailsUnchanged machine
    exact changeList_of_not_list h

/-! ### Functions that fail -/

theorem changeList_atomic (intrinsic : Intrinsic) (argument : Value)
    (change : Heap → Array Value → Except Fault (Array Value → Array Value)) :
    (changeList intrinsic argument change).Atomic := by
  unfold changeList
  cases argument with
  | list ref =>
    intro heap fault after h
    dsimp only at h
    split at h
    · cases h
    · cases h
      rfl
  | _ => exact .fail _

theorem converted_atomic {α : Type} (result : Except Fault α) (make : α → Value) :
    (converted result make).Atomic := by
  cases result with
  | ok value => exact .pure _
  | error fault => exact .fail _

theorem ofNumber_atomic (intrinsic : Intrinsic) (compute : Float → Float) (argument : Value) :
    (intrinsic.ofNumber compute argument).Atomic := by
  cases argument with
  | number value => exact .pure _
  | _ => exact .fail _

theorem ofCharacter_atomic (intrinsic : Intrinsic) (test : Char → Bool) (argument : Value) :
    (intrinsic.ofCharacter test argument).Atomic := by
  cases argument with
  | character value => exact .pure _
  | _ => exact .fail _

theorem power_atomic (base exponent : Value) : (power base exponent).Atomic := by
  unfold power
  split
  · exact .pure _
  · exact .fail _

theorem rangeOf_atomic (fuel : Nat) (start stop : Value) : (rangeOf fuel start stop).Atomic := by
  unfold rangeOf
  split
  · split
    · exact .newList _
    · exact .exhausted
  · exact .fail _
  · exact .fail _

theorem lengthOf_atomic (argument : Value) : (lengthOf argument).Atomic := by
  cases argument with
  | text value => exact .pure _
  | list ref => exact .gets _
  | _ => exact .fail _

/-- No function that does without the streams fails after it has changed anything. -/
theorem onHeap_atomic (fuel : Nat) (intrinsic : Intrinsic) (arguments : List Value) :
    (intrinsic.onHeap fuel arguments).Atomic := by
  fun_cases onHeap fuel intrinsic arguments
  · exact fun heap => HeapAction.Atomic.newText _ heap
  · exact fun heap => HeapAction.Atomic.newText _ heap
  · exact converted_atomic _ _
  · exact converted_atomic _ _
  · exact converted_atomic _ _
  · exact .newList _
  · exact .fail _
  · exact ofCharacter_atomic _ _ _
  · exact ofCharacter_atomic _ _ _
  · exact changeList_atomic _ _ _
  · exact changeList_atomic _ _ _
  · exact changeList_atomic _ _ _
  · exact rangeOf_atomic _ _ _
  · exact fun heap fault after h => by cases h
  · exact lengthOf_atomic _
  all_goals first
    | exact ofNumber_atomic _ _ _
    | exact power_atomic _ _
    | exact .fail _

/-- With a wrong number of arguments, a call fails before one of them is evaluated. -/
theorem call_wrong_arity {name : String} (hname : ofName? name = some intrinsic)
    {arguments : List Expr} (harity : intrinsic.arity.accepts arguments.length = false)
    (fuel : Nat) :
    (Plan.call (fuel + 1) (.named name) arguments).run.FailsUnchanged machine := by
  refine ⟨.unplaced (.arity intrinsic.name intrinsic.arity arguments.length), ?_⟩
  rw [Plan.call, hname]
  simp only [checkArity, harity]
  rfl

theorem apply_eq_onHeap (h : intrinsic ∉ [print, println, input]) (fuel : Nat)
    (arguments : List Value) :
    intrinsic.apply fuel arguments = Eval.onHeap (intrinsic.onHeap fuel arguments) := by
  cases intrinsic with
  | print | println | input => simp at h
  | _ => rfl

theorem apply_atomic (h : intrinsic ∉ [print, println, input]) {fuel : Nat}
    {arguments : List Value} {error : RuntimeError} {after : Machine}
    (hfailed : intrinsic.apply fuel arguments machine = .failed error after) : after = machine := by
  rw [apply_eq_onHeap h] at hfailed
  cases hran : intrinsic.onHeap fuel arguments machine.heap with
  | done value heap =>
    rw [Eval.onHeap_done hran] at hfailed
    cases hfailed
  | failed fault heap =>
    rw [Eval.onHeap_failed hran] at hfailed
    cases hfailed
    rw [onHeap_atomic fuel intrinsic arguments machine.heap fault heap hran]
  | outOfFuel =>
    unfold Eval.onHeap at hfailed
    dsimp only at hfailed
    rw [hran] at hfailed
    cases hfailed

end Intrinsic

/-- A list to which a global variable and another list refer. -/
def Machine.sharing : Machine where
  environment := Environment.empty.bindGlobal "shared" (.list 0)
  heap := ⟨#[#[.boolean true, .boolean false, .boolean true], #[.list 0]], .empty, 0⟩
  control := .initial
  functions := .empty
  console := .ofInput []

end Betty
