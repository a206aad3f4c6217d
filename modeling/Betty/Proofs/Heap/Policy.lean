import Betty.Evaluate
import Betty.Proofs.Outcome

/-!
# What computations on the heap do with values

Operators and intrinsic functions make new values out of numbers, texts and the like, out
of the values they are given, and out of the elements of lists that they are given. They
change no other lists than those, and they put no other values into them. A policy says
which values may be at hand and what a heap has to be like; every computation on the heap
respects every policy. None of them fails because of malformed syntax or of a jump that has
no goal.

## Main definitions

* `HeapPolicy`: which values may be at hand, and the heaps that go with them.
* `HeapAction.Respects`: a computation on the heap keeps to a policy.

## Main results

* `applyBinary_respects`: the operators.
* `Intrinsic.onHeap_respects`: the intrinsic functions.
-/

namespace Betty

/-- Is this the fault of a program that was run in spite of its syntax errors? -/
def Fault.isMalformed : Fault → Bool
  | malformed _ => true
  | _ => false

/-- Is this a fault of an operation, and not of the form of the program: neither of
malformed syntax nor of a jump without a goal? -/
def Fault.isOrdinary : Fault → Bool
  | malformed _ | strayJump _ => false
  | _ => true

theorem Fault.not_isMalformed {fault : Fault} (h : fault.isOrdinary) :
    fault.isMalformed = false := by
  cases fault with
  | malformed _ => cases h
  | _ => rfl

/-! ### Lists after a change -/

namespace Heap

theorem items_alloc (heap : Heap) (items : Array Value) (ref : ListRef) :
    (heap.alloc items).2.items ref = if ref = heap.cells.size then items else heap.items ref := by
  unfold Heap.items alloc
  simp only [Array.getD_eq_getD_getElem?, Array.getElem?_push]
  by_cases h : ref = heap.cells.size
  · simp [h]
  · simp [h]

theorem items_modify (heap : Heap) (ref other : ListRef) (change : Array Value → Array Value) :
    (heap.modify ref change).items other =
      if other = ref ∧ ref < heap.cells.size then change (heap.items ref)
      else heap.items other := by
  unfold Heap.items modify
  simp only [Array.getD_eq_getD_getElem?, Array.getElem?_modify]
  by_cases hother : other = ref
  · subst hother
    by_cases hsize : other < heap.cells.size
    · simp [hsize]
    · simp [hsize]
  · simp [hother, Ne.symm hother]

@[simp]
theorem size_modify (heap : Heap) (ref : ListRef) (change : Array Value → Array Value) :
    (heap.modify ref change).cells.size = heap.cells.size := by
  simp [modify]

end Heap

/-! ### Policies -/

/-- Does the value refer to nothing, being neither a list nor a function? -/
def Value.isPlain : Value → Bool
  | list _ | function _ => false
  | _ => true

/-- Which values may be at hand, and which heaps go with them: the elements of a list at
hand may be at hand, new lists of such values too, and a list at hand may be changed to hold
others of them. Texts and functions can always be created. -/
structure HeapPolicy where
  value : Value → Prop
  heap : Heap → Prop
  plain : ∀ {item : Value}, item.isPlain → value item
  items : ∀ {before : Heap} {ref : ListRef}, heap before → value (.list ref) →
    ∀ item ∈ before.items ref, value item
  alloc : ∀ {before : Heap} {items : Array Value}, heap before → (∀ item ∈ items, value item) →
    value (.list (before.alloc items).1) ∧ heap (before.alloc items).2
  modify : ∀ {before : Heap} {ref : ListRef} {change : Array Value → Array Value}, heap before →
    value (.list ref) →
    (∀ items, (∀ item ∈ items, value item) → ∀ item ∈ change items, value item) →
    heap (before.modify ref change)
  intern : ∀ {before : Heap} (text : String), heap before →
    heap { before with texts := (before.texts.intern text).2 }
  number : ∀ {before : Heap}, heap before → heap { before with functions := before.functions + 1 }

variable {policy : HeapPolicy}

namespace HeapPolicy

theorem getD {heap : Heap} (h : policy.heap heap) {ref : ListRef} (hlist : policy.value (.list ref))
    (position : Nat) : policy.value ((heap.items ref).getD position .none) := by
  rw [Array.getD_eq_getD_getElem?]
  cases hget : (heap.items ref)[position]? with
  | none => exact policy.plain rfl
  | some item => exact policy.items h hlist item (Array.mem_of_getElem? hget)

theorem elements? {heap : Heap} (h : policy.heap heap) {value : Value} (hvalue : policy.value value)
    {items : List Value} (helements : heap.elements? value = some items) :
    ∀ item ∈ items, policy.value item := by
  unfold Heap.elements? at helements
  split at helements
  · cases helements
    intro item hitem
    exact policy.items h hvalue item (Array.mem_toList_iff.1 hitem)
  · cases helements
    intro item hitem
    obtain ⟨_, _, rfl⟩ := List.mem_map.1 hitem
    exact policy.plain rfl
  · cases helements

/-- Values that are copied one after another, by copies that keep to the policy. -/
theorem copyAll (clone : Heap → Value → Value × Heap)
    (hclone : ∀ heap value, policy.heap heap → policy.value value →
      policy.value (clone heap value).1 ∧ policy.heap (clone heap value).2)
    (items : List Value) (hitems : ∀ item ∈ items, policy.value item)
    (start : Array Value × Heap) (hstart : ∀ item ∈ start.1, policy.value item)
    (hheap : policy.heap start.2) :
    let copied := items.foldl (fun (copied, heap) item =>
      let (item, heap) := clone heap item
      (copied.push item, heap)) start
    (∀ item ∈ copied.1, policy.value item) ∧ policy.heap copied.2 := by
  induction items generalizing start with
  | nil => exact ⟨hstart, hheap⟩
  | cons item rest ih =>
    obtain ⟨hcopy, hafter⟩ := hclone start.2 item hheap (hitems item List.mem_cons_self)
    refine ih (fun other hother => hitems other (List.mem_cons_of_mem _ hother)) _ ?_ hafter
    intro other hother
    rcases Array.mem_push.1 hother with hother | rfl
    · exact hstart other hother
    · exact hcopy

/-- A copy is made of what may be at hand. -/
theorem cloneWithin (depth : Nat) {heap : Heap} (h : policy.heap heap) {value : Value}
    (hvalue : policy.value value) :
    policy.value (heap.cloneWithin depth value).1 ∧
      policy.heap (heap.cloneWithin depth value).2 := by
  induction depth generalizing heap value with
  | zero => exact ⟨hvalue, h⟩
  | succ depth ih =>
    cases value with
    | list ref =>
      rw [Heap.cloneWithin]
      obtain ⟨hitems, hheap⟩ := copyAll (Heap.cloneWithin depth) (fun _ _ hheap => ih hheap)
        (heap.items ref).toList
        (fun item hitem => policy.items h hvalue item (Array.mem_toList_iff.1 hitem)) (#[], heap)
        (by simp) h
      rw [Array.foldl_toList] at hitems hheap
      exact policy.alloc hheap hitems
    | _ => exact ⟨hvalue, h⟩

end HeapPolicy

/-! ### Computations on the heap -/

/-- Started in a heap of the policy, the computation leaves one, however it ends. It yields
a value that may be at hand, and its faults are those of operations. -/
def HeapAction.Respects (policy : HeapPolicy) (action : HeapAction Value) : Prop :=
  ∀ heap : Heap, policy.heap heap →
    (action heap).Meets (fun value after => policy.value value ∧ policy.heap after)
      (fun fault after => fault.isOrdinary ∧ policy.heap after) True

namespace HeapAction.Respects

theorem pure {value : Value} (h : policy.value value) : Respects policy (Pure.pure value) :=
  fun _ hheap => ⟨h, hheap⟩

theorem fail {fault : Fault} (h : fault.isOrdinary) : Respects policy (Action.fail fault) :=
  fun _ hheap => ⟨h, hheap⟩

theorem typeFault (fault : TypeFault) : Respects policy (HeapAction.typeFault fault) :=
  fail rfl

theorem gets {view : Heap → Value} (h : ∀ heap, policy.value (view heap)) :
    Respects policy (Action.gets view) :=
  fun heap hheap => ⟨h heap, hheap⟩

theorem newList {items : Array Value} (h : ∀ item ∈ items, policy.value item) :
    Respects policy (HeapAction.newList items) :=
  fun _ hheap => policy.alloc hheap h

theorem newText (text : String) : Respects policy (HeapAction.newText text) :=
  fun _ hheap => ⟨policy.plain rfl, policy.intern text hheap⟩

theorem ofResult {α : Type} (result : Except TypeFault α) {make : α → Value}
    (h : ∀ value, result = .ok value → policy.value (make value)) :
    Respects policy (HeapAction.ofResult result make) := by
  cases result with
  | ok value => exact pure (h value rfl)
  | error fault => exact typeFault fault

theorem ofTruth (result : Except TypeFault Bool) :
    Respects policy (HeapAction.ofResult result Value.boolean) :=
  ofResult result fun _ _ => policy.plain rfl

end HeapAction.Respects

/-! ### Operators -/

theorem arithmetic_plain {op : BinaryOp} {left right value : Value}
    (h : arithmetic op left right = .ok value) : value.isPlain := by
  unfold arithmetic at h
  split at h
  · split at h <;> cases h
    rfl
  · cases h

theorem applyAdd_respects {left right : Value} (hleft : policy.value left)
    (hright : policy.value right) : (applyAdd left right).Respects policy := by
  intro heap hheap
  unfold applyAdd
  split
  · exact HeapAction.Respects.newText _ heap hheap
  · exact HeapAction.Respects.newText _ heap hheap
  · refine HeapAction.Respects.newList (fun item hitem => ?_) heap hheap
    rcases Array.mem_append.1 hitem with hitem | hitem
    · exact policy.items hheap hleft item hitem
    · exact policy.items hheap hright item hitem
  · refine HeapAction.Respects.newList (fun item hitem => ?_) heap hheap
    rcases Array.mem_push.1 hitem with hitem | rfl
    · exact policy.items hheap hleft item hitem
    · exact hright
  · refine HeapAction.Respects.newList (fun item hitem => ?_) heap hheap
    rcases Array.mem_append.1 hitem with hitem | hitem
    · rw [Array.mem_singleton.1 hitem]
      exact hleft
    · exact policy.items hheap hright item hitem
  · refine HeapAction.Respects.ofResult _ (fun value hvalue => ?_) heap hheap
    exact policy.plain (arithmetic_plain hvalue)

theorem applyBinary_respects (op : BinaryOp) {left right : Value} (hleft : policy.value left)
    (hright : policy.value right) : (applyBinary op left right).Respects policy := by
  cases op with
  | add => exact applyAdd_respects hleft hright
  | sub | mul | div | floorDiv | rem | pow =>
    exact .ofResult _ fun _ hvalue => policy.plain (arithmetic_plain hvalue)
  | and | or => exact .ofTruth _
  | eq | ne | lt | le | gt | ge =>
    intro heap hheap
    exact HeapAction.Respects.ofTruth (compareValues heap _ left right) heap hheap

/-- What is added to a list along with a value. -/
theorem HeapPolicy.addedItems {heap : Heap} (h : policy.heap heap) {value : Value}
    (hvalue : policy.value value) : ∀ item ∈ addedItems heap value, policy.value item := by
  unfold Betty.addedItems
  split
  · exact policy.items h hvalue
  · intro item hitem
    rw [Array.mem_singleton.1 hitem]
    exact hvalue

theorem stepValue_plain {up : Bool} {operand value : Value}
    (h : stepValue up operand = .ok value) : value.isPlain := by
  unfold stepValue at h
  split at h <;> cases h
  rfl

/-- A unary operator yields its operand or something plain. -/
theorem HeapPolicy.unary {op : UnaryOp} {operand value : Value} (hoperand : policy.value operand)
    (h : applyUnary op operand = .ok value) : policy.value value := by
  unfold applyUnary at h
  split at h
  · cases h
    exact hoperand
  · split at h <;> cases h
    exact policy.plain rfl
  · split at h <;> cases h
    exact policy.plain rfl
  · exact policy.plain (stepValue_plain h)
  · exact policy.plain (stepValue_plain h)

theorem indexIn_fault {index : Value} {length : Nat} {fault : Fault}
    (h : indexIn index length = .error fault) : fault.isOrdinary := by
  unfold indexIn at h
  split at h
  · split at h
    · cases h
      rfl
    · split at h <;> cases h
      rfl
  · cases h
    rfl

/-! ### Intrinsic functions -/

namespace Intrinsic

theorem ofNumber_respects (intrinsic : Intrinsic) (compute : Float → Float) (argument : Value) :
    (ofNumber intrinsic compute argument).Respects policy := by
  unfold ofNumber
  split
  · exact .pure (policy.plain rfl)
  · exact .typeFault _

theorem ofCharacter_respects (intrinsic : Intrinsic) (test : Char → Bool) (argument : Value) :
    (ofCharacter intrinsic test argument).Respects policy := by
  unfold ofCharacter
  split
  · exact .pure (policy.plain rfl)
  · exact .typeFault _

theorem power_respects (base exponent : Value) : (power base exponent).Respects policy := by
  unfold power
  split
  · exact .pure (policy.plain rfl)
  · exact .typeFault _

/-- A list at hand is changed within the policy if what changes it adds only values that may
be at hand. -/
theorem changeList_respects (intrinsic : Intrinsic) {argument : Value}
    (hargument : policy.value argument)
    {change : Heap → Array Value → Except Fault (Array Value → Array Value)}
    (hok : ∀ heap items edit, change heap items = .ok edit →
      ∀ items, (∀ item ∈ items, policy.value item) → ∀ item ∈ edit items, policy.value item)
    (herror : ∀ heap items fault, change heap items = .error fault → fault.isOrdinary) :
    (changeList intrinsic argument change).Respects policy := by
  unfold changeList
  cases argument with
  | list ref =>
    intro heap hheap
    dsimp only
    split
    · next edit hedit =>
      have hchanged := policy.modify hheap hargument (hok _ _ edit hedit)
      exact HeapAction.Respects.newList (policy.items hchanged hargument) _ hchanged
    · next fault hfault => exact ⟨herror _ _ fault hfault, hheap⟩
  | _ => exact .typeFault _

theorem appendTo_respects {list item : Value} (hlist : policy.value list)
    (hitem : policy.value item) : (appendTo list item).Respects policy := by
  unfold appendTo
  refine changeList_respects _ hlist (fun _ _ edit hedit items hitems value hvalue => ?_)
    (fun _ _ _ h => by cases h)
  cases hedit
  rcases Array.mem_push.1 hvalue with hvalue | rfl
  · exact hitems value hvalue
  · exact hitem

theorem mem_of_mem_eraseIdxIfInBounds {items : Array Value} {position : Nat} {value : Value}
    (h : value ∈ items.eraseIdxIfInBounds position) : value ∈ items := by
  unfold Array.eraseIdxIfInBounds at h
  split at h
  · exact Array.mem_of_mem_eraseIdx h
  · exact h

theorem removeFrom_respects {list : Value} (hlist : policy.value list) (item : Value) :
    (removeFrom list item).Respects policy := by
  unfold removeFrom
  refine changeList_respects _ hlist (fun _ _ edit hedit => ?_) (fun _ _ _ h => ?_)
  · split at hedit <;> cases hedit
    · exact fun items hitems value hvalue => hitems value (mem_of_mem_eraseIdxIfInBounds hvalue)
    · exact fun items hitems => hitems
  · split at h <;> cases h

theorem removeAt_respects {list : Value} (hlist : policy.value list) (index : Value) :
    (removeAt list index).Respects policy := by
  unfold removeAt
  refine changeList_respects _ hlist (fun _ _ edit hedit => ?_) (fun _ _ fault h => ?_)
  · split at hedit <;> cases hedit
    exact fun items hitems value hvalue => hitems value (mem_of_mem_eraseIdxIfInBounds hvalue)
  · split at h
    · cases h
    · next hindex =>
      cases h
      exact indexIn_fault hindex

theorem countUp_plain {stop : Float} {fuel : Nat} {next : Float} {found items : Array Value}
    (hfound : ∀ item ∈ found, item.isPlain) (h : countUp stop fuel next found = some items) :
    ∀ item ∈ items, item.isPlain := by
  induction fuel generalizing next found with
  | zero => cases h
  | succ fuel ih =>
    unfold countUp at h
    split at h
    · refine ih (fun item hitem => ?_) h
      rcases Array.mem_push.1 hitem with hitem | rfl
      · exact hfound item hitem
      · rfl
    · cases h
      exact hfound

theorem rangeOf_respects (fuel : Nat) (start stop : Value) :
    (rangeOf fuel start stop).Respects policy := by
  unfold rangeOf
  split
  · split
    · next hitems =>
      exact .newList fun item hitem => policy.plain (countUp_plain (by simp) hitems item hitem)
    · exact fun _ _ => trivial
  · exact .typeFault _
  · exact .typeFault _

theorem lengthOf_respects (argument : Value) : (lengthOf argument).Respects policy := by
  unfold lengthOf
  split
  · exact .pure (policy.plain rfl)
  · exact .gets fun _ => policy.plain rfl
  · exact .typeFault _

theorem cloneOf_respects {argument : Value} (h : policy.value argument) :
    (cloneOf argument).Respects policy :=
  fun _ hheap => policy.cloneWithin _ hheap h

theorem converted_respects {α : Type} {result : Except Fault α} {make : α → Value}
    (hmake : ∀ value, policy.value (make value))
    (herror : ∀ fault, result = .error fault → fault.isOrdinary) :
    (converted result make).Respects policy := by
  cases result with
  | ok value => exact .pure (hmake value)
  | error fault => exact .fail (herror fault rfl)

theorem toNumber_fault {value : Value} {fault : Fault} (h : toNumber value = .error fault) :
    fault.isOrdinary := by
  unfold toNumber at h
  split at h
  · cases h
  · cases h
  · cases h
  · split at h <;> cases h
    rfl
  · cases h
    rfl

theorem toBoolean_fault {value : Value} {fault : Fault} (h : toBoolean value = .error fault) :
    fault.isOrdinary := by
  unfold toBoolean at h
  split at h
  · cases h
  · cases h
  · cases h
  · dsimp only at h
    split at h
    · cases h
    · split at h <;> cases h
  · cases h
    rfl

theorem toCharacter_fault {value : Value} {fault : Fault} (h : toCharacter value = .error fault) :
    fault.isOrdinary := by
  unfold toCharacter at h
  split at h
  · cases h
  · cases h
  · split at h <;> cases h
    rfl
  · split at h <;> cases h
    rfl
  · cases h
    rfl

theorem toElements_plain {value : Value} {items : Array Value} (h : toElements value = .ok items) :
    ∀ item ∈ items, item.isPlain := by
  unfold toElements at h
  split at h <;> cases h
  intro item hitem
  obtain ⟨_, _, rfl⟩ := List.mem_map.1 (List.mem_toArray.1 hitem)
  rfl

theorem toElements_fault {value : Value} {fault : Fault} (h : toElements value = .error fault) :
    fault.isOrdinary := by
  unfold toElements at h
  split at h <;> cases h
  rfl

theorem wrongArity_respects (intrinsic : Intrinsic) (arguments : List Value) :
    (wrongArity intrinsic arguments).Respects policy :=
  HeapAction.Respects.fail rfl

theorem onHeap_respects (fuel : Nat) (intrinsic : Intrinsic) {arguments : List Value}
    (h : ∀ value ∈ arguments, policy.value value) :
    (intrinsic.onHeap fuel arguments).Respects policy := by
  fun_cases onHeap fuel intrinsic arguments
  · exact fun heap hheap => HeapAction.Respects.newText _ heap hheap
  · exact fun heap hheap => HeapAction.Respects.newText _ heap hheap
  · exact converted_respects (fun _ => policy.plain rfl) fun _ => toNumber_fault
  · exact converted_respects (fun _ => policy.plain rfl) fun _ => toBoolean_fault
  · exact converted_respects (fun _ => policy.plain rfl) fun _ => toCharacter_fault
  · next items hitems =>
    exact .newList fun item hitem => policy.plain (toElements_plain hitems item hitem)
  · next fault hfault => exact .fail (toElements_fault hfault)
  · exact ofCharacter_respects _ _ _
  · exact ofCharacter_respects _ _ _
  · exact appendTo_respects (h _ (by simp)) (h _ (by simp))
  · exact removeFrom_respects (h _ (by simp)) _
  · exact removeAt_respects (h _ (by simp)) _
  · exact rangeOf_respects _ _ _
  · exact cloneOf_respects (h _ (by simp))
  · exact lengthOf_respects _
  all_goals first
    | exact ofNumber_respects _ _ _
    | exact power_respects _ _
    | exact wrongArity_respects _ _

end Intrinsic

end Betty
