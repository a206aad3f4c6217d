import Betty.Proofs.Assignment
import Betty.Proofs.Intrinsic

/-!
# Elements are accessed within the bounds

A value is an index into a sequence if it is a number that is exactly a position of the
sequence. It is checked once, against the length that the sequence has then; between the check
and the access that relies on it, a list may get longer, but never shorter.

To say so, the operations on elements are written here with the accesses as parameters. All that
is known of an access is what it does at a position that there is; elsewhere it may do
anything, for instance stop the program. Since the operations are the same whatever that is, they
never get there.

## Main definitions

* `Value.NotInteger`: values that are no integers.
* `ElementAccess`: how single elements are read, written and removed.
* `ElementAccess.Exact`: what an access does at a position that there is.
* `ElementAccess.strict`: an access that goes on only at a position that there is.
* `ElementAccess.elementAt`, `ElementAccess.assign` and others: the operations on elements.

## Main results

* `indexIn_eq_typeFault_iff`, `indexIn_eq_outOfRange_iff`: which values are refused, and why.
* `combined_size_le`: combining values makes no list shorter.
* `elements_in_bounds`: which values are indices, and that all accesses are within the bounds.
-/

namespace Betty

/-! ### Indices -/

namespace Number

/-- Only infinities and the value that is not a number denote no rational number. -/
theorem rational?_eq_none_iff {x : Float} : rational? x = none ↔ x.isNaN ∨ x.isInf := by
  change (parts? x.toModel.unpack).map Binary.value = none ↔
    x.toModel.unpack.isNaN ∨ x.toModel.unpack.isInf
  rw [Option.map_eq_none_iff]
  cases x.toModel.unpack <;>
    simp [parts?, Float.Model.UnpackedFloat.isNaN, Float.Model.UnpackedFloat.isInf]

end Number

/-- The value is no integer: it is no number at all, or it is one without an integer value. -/
inductive Value.NotInteger : Value → Prop
  | kind {value : Value} (h : value.kind ≠ .number) : NotInteger value
  | notANumber {x : Float} (h : x.isNaN) : NotInteger (.number x)
  | infinite {x : Float} (h : x.isInf) : NotInteger (.number x)
  | fraction {x : Float} {q : ℚ} (h : Number.rational? x = some q) (hq : ∀ n : ℤ, q ≠ n) :
    NotInteger (.number x)

theorem Value.notInteger_number_iff {x : Float} :
    (Value.number x).NotInteger ↔ Number.integer? x = Option.none := by
  rw [Option.eq_none_iff_forall_ne_some]
  simp only [ne_eq, Number.integer?_eq_some_iff]
  constructor
  · intro h n hn
    cases h with
    | kind h => exact h rfl
    | notANumber h => simp [Number.rational?_eq_none_iff.2 (.inl h)] at hn
    | infinite h => simp [Number.rational?_eq_none_iff.2 (.inr h)] at hn
    | fraction h hq => exact hq n (Option.some.inj (h.symm.trans hn))
  · intro h
    cases hvalue : Number.rational? x with
    | none => exact (Number.rational?_eq_none_iff.1 hvalue).elim .notANumber .infinite
    | some q => exact .fraction hvalue fun n hn => h n (hn ▸ hvalue)

/-- A value is refused because of its type if it is no integer. -/
theorem indexIn_eq_typeFault_iff {index : Value} {length : Nat} :
    (∃ fault, indexIn index length = .error (.type fault)) ↔ index.NotInteger := by
  cases index with
  | number x =>
    rw [Value.notInteger_number_iff]
    unfold indexIn
    dsimp only
    cases Number.integer? x with
    | none => simp
    | some n =>
      dsimp only
      split <;> simp
  | _ => exact iff_of_true ⟨_, rfl⟩ (.kind (by simp [Value.kind]))

/-- An integer is refused if it is negative, or too large. -/
theorem indexIn_eq_outOfRange_iff {index : Value} {length : Nat} {x : Float} :
    indexIn index length = .error (.indexOutOfRange x length) ↔
      index = .number x ∧ ∃ n : ℤ, Number.rational? x = some (n : ℚ) ∧ (n < 0 ∨ length ≤ n) := by
  simp only [← Number.integer?_eq_some_iff]
  cases index with
  | number y =>
    unfold indexIn
    dsimp only
    rw [Value.number.injEq]
    cases hvalue : Number.integer? y with
    | none =>
      refine iff_of_false (by simp) ?_
      rintro ⟨rfl, n, hn, -⟩
      rw [hvalue] at hn
      cases hn
    | some n =>
      dsimp only
      split
      · next hinside =>
        refine iff_of_false (by simp) ?_
        rintro ⟨rfl, m, hm, hrange⟩
        obtain rfl := Option.some.inj (hvalue.symm.trans hm)
        omega
      · next houtside =>
        rw [Except.error.injEq, Fault.indexOutOfRange.injEq]
        constructor
        · rintro ⟨rfl, -⟩
          exact ⟨rfl, n, hvalue, by omega⟩
        · rintro ⟨rfl, -⟩
          exact ⟨rfl, rfl⟩
  | _ => simp [indexIn]

/-! ### Accesses -/

/-- How the elements of lists are read, written and removed, and the characters of texts read, by
their positions. -/
structure ElementAccess where
  read : ListRef → Nat → HeapAction Value
  write : ListRef → Nat → Value → HeapAction Unit
  remove : ListRef → Nat → HeapAction Unit
  character : String → Nat → HeapAction Char

namespace ElementAccess

/-- At a position that there is, an access does what it should. -/
structure Exact (access : ElementAccess) : Prop where
  read : ∀ {heap : Heap} {ref : ListRef} {position : Nat}
    (h : position < (heap.items ref).size),
    access.read ref position heap = .done ((heap.items ref)[position]) heap
  write : ∀ {heap : Heap} {ref : ListRef} {position : Nat} (value : Value)
    (h : position < (heap.items ref).size),
    access.write ref position value heap =
      .done () (heap.modify ref fun _ => (heap.items ref).set position value h)
  remove : ∀ {heap : Heap} {ref : ListRef} {position : Nat}
    (h : position < (heap.items ref).size),
    access.remove ref position heap =
      .done () (heap.modify ref fun _ => (heap.items ref).eraseIdx position h)
  character : ∀ {heap : Heap} {text : String} {position : Nat}
    (h : position < text.toList.length),
    access.character text position heap = .done (text.toList[position]) heap

/-- An access that goes on only at a position that there is. -/
def strict : ElementAccess where
  read ref position := fun heap =>
    if h : position < (heap.items ref).size then .done ((heap.items ref)[position]) heap
    else .outOfFuel
  write ref position value := fun heap =>
    if h : position < (heap.items ref).size then
      .done () (heap.modify ref fun _ => (heap.items ref).set position value h)
    else .outOfFuel
  remove ref position := fun heap =>
    if h : position < (heap.items ref).size then
      .done () (heap.modify ref fun _ => (heap.items ref).eraseIdx position h)
    else .outOfFuel
  character text position := fun heap =>
    if h : position < text.toList.length then .done (text.toList[position]) heap
    else .outOfFuel

theorem strict_exact : strict.Exact where
  read h := dif_pos h
  write _ h := dif_pos h
  remove h := dif_pos h
  character h := dif_pos h

variable (access : ElementAccess)

/-- The position that a value is in a sequence of the given length. -/
def position (index : Value) (length : Nat) : HeapAction Nat :=
  match indexIn index length with
  | .ok position => pure position
  | .error fault => Action.fail fault

/-- The element of a list or text at an index. -/
def elementAt (collection index : Value) : HeapAction Value :=
  match collection with
  | .list ref => do
    let length ← Action.gets fun heap => (heap.items ref).size
    let position ← position index length
    access.read ref position
  | .text value => do
    let position ← position index value.text.length
    let found ← access.character value.text position
    return .character found
  | other => HeapAction.typeFault (.indexing other.kind)

/-- Removes the element at an index, and yields a new list with the elements that are left. -/
def removeAt (list index : Value) : HeapAction Value :=
  match list with
  | .list ref => do
    let length ← Action.gets fun heap => (heap.items ref).size
    let position ← position index length
    access.remove ref position
    let items ← Action.gets fun heap => heap.items ref
    HeapAction.newList items
  | other => HeapAction.typeFault (.listArgument Intrinsic.removeat.name other.kind)

/-- The value to be assigned to an element: the new one, or the old one combined with it. -/
def assignedValue (ref : ListRef) (position : Nat) (op : Option BinaryOp) (value : Value) :
    Eval Value :=
  match op with
  | none => pure value
  | some op => do
    let old ← Eval.onHeap (access.read ref position)
    Eval.onHeap (combined op old value)

/-- An assignment to an element. The element is read only if it is combined with the value. -/
def assign (evaluate : Expr → Eval Value) (place : Position) (collection index : Expr)
    (op : Option BinaryOp) (value : Expr) : Eval Value := do
  let value ← evaluate value
  let collection ← evaluate collection
  let index ← evaluate index
  let (ref, position) ← Eval.located place <| Eval.query fun machine =>
    elementPlace machine.heap .elementAssignment collection index
  let updated ← access.assignedValue ref position op value
  Eval.onHeap (access.write ref position updated)
  return updated

/-- A step up or down of an element. -/
def step (evaluate : Expr → Eval Value) (up : Bool) (fixity : Fixity)
    (collection index : Expr) : Eval Value := do
  let collection ← evaluate collection
  let index ← evaluate index
  let (ref, position) ← Eval.query fun machine =>
    elementPlace machine.heap .elementStep collection index
  let old ← Eval.onHeap (access.read ref position)
  let new ← Eval.ofTyped (stepValue up old)
  Eval.onHeap (access.write ref position new)
  return if fixity = .leading then new else old

end ElementAccess

/-! ### Lengths -/

/-- A change of a list depends only on what becomes of its elements. -/
theorem Heap.modify_congr {heap : Heap} {ref : ListRef} {change change' : Array Value → Array Value}
    (h : change (heap.items ref) = change' (heap.items ref)) :
    heap.modify ref change = heap.modify ref change' := by
  unfold modify
  congr 1
  apply Array.ext
  · simp
  · intro i hi hi'
    rw [Array.getElem_modify, Array.getElem_modify]
    split
    · next hsame =>
      subst hsame
      rw [Array.size_modify] at hi
      have hitems : heap.items ref = heap.cells[ref] := by
        unfold items
        rw [Array.getD_eq_getD_getElem?, Array.getElem?_eq_getElem hi, Option.getD_some]
      rw [← hitems, h]
    · rfl

/-- A new list makes no list shorter. -/
theorem Heap.size_items_alloc_le (heap : Heap) (items : Array Value) (ref : ListRef) :
    (heap.items ref).size ≤ ((heap.alloc items).2.items ref).size := by
  rw [Heap.items_alloc]
  split
  · next hnew =>
    have hempty : heap.items ref = #[] := by simp [Heap.items, hnew]
    rw [hempty]
    exact Nat.zero_le _
  · exact Nat.le_refl _

/-- Combining values makes no list shorter: it adds to a list, or makes a new one. -/
theorem combined_size_le {op : BinaryOp} {current value updated : Value} {heap after : Heap}
    (h : combined op current value heap = .done updated after) (ref : ListRef) :
    (heap.items ref).size ≤ (after.items ref).size := by
  rcases combined_cases op current value heap with ⟨list, -, -, hadd⟩ | hbinary
  · rw [hadd] at h
    cases h
    rw [Heap.items_modify]
    split
    · next hlist =>
      rw [hlist.1, Array.size_append]
      exact Nat.le_add_right _ _
    · exact Nat.le_refl _
  · rw [hbinary] at h
    rcases applyBinary_cases op current value heap with
      ⟨items, hnew⟩ | ⟨text, hnew⟩ | ⟨found, hkept⟩ | ⟨fault, hfail⟩
    · rw [hnew] at h
      cases h
      exact heap.size_items_alloc_le items ref
    · rw [hnew] at h
      cases h
      exact Nat.le_refl _
    · rw [hkept] at h
      cases h
      exact Nat.le_refl _
    · rw [hfail] at h
      cases h

/-- Two computations that start alike go on alike if they do so wherever the start leads. -/
theorem Action.bind_congr {ε σ α β : Type} {first first' : Action ε σ α}
    {second second' : α → Action ε σ β} {state : σ} (hfirst : first state = first' state)
    (hsecond : ∀ value after, first' state = .done value after →
      second value after = second' value after) :
    (first >>= second) state = (first' >>= second') state := by
  change Action.bind first second state = Action.bind first' second' state
  unfold Action.bind
  rw [hfirst]
  cases hend : first' state with
  | done value after => exact hsecond value after hend
  | failed error after => rfl
  | outOfFuel => rfl

theorem Eval.query_done {α : Type} {view : Machine → Except Fault α} {machine after : Machine}
    {value : α} (h : Eval.query view machine = .done value after) :
    view machine = .ok value ∧ after = machine := by
  unfold Eval.query at h
  split at h
  · next hview =>
    cases h
    exact ⟨hview, rfl⟩
  · cases h

theorem Eval.ofTyped_done {α : Type} {result : Except TypeFault α} {machine after : Machine}
    {value : α} (h : Eval.ofTyped result machine = .done value after) : after = machine := by
  cases result with
  | ok found =>
    cases h
    rfl
  | error fault => cases h

theorem Eval.located_done {α : Type} {action : Eval α} {place : Position}
    {machine after : Machine} {value : α}
    (h : Eval.located place action machine = .done value after) :
    action machine = .done value after := by
  unfold Eval.located at h
  split at h
  · cases h
  · exact h

/-- The place of an element is a position of a list. -/
theorem elementPlace_ok {heap : Heap} {refusal : Kind → TypeFault} {collection index : Value}
    {ref : ListRef} {position : Nat}
    (h : elementPlace heap refusal collection index = .ok (ref, position)) :
    position < (heap.items ref).size := by
  unfold elementPlace at h
  split at h
  · split at h
    · next hindex =>
      cases h
      exact (Intrinsic.indexIn_eq_ok_iff.1 hindex).2
    · cases h
  · cases h

/-! ### Operations -/

namespace ElementAccess

variable {access : ElementAccess}

theorem Exact.elementAt (h : access.Exact) (collection index : Value) :
    (Eval.query fun machine => Betty.elementAt machine.heap collection index) =
      Eval.onHeap (access.elementAt collection index) := by
  funext machine
  cases collection with
  | list ref =>
    simp only [Eval.query, Betty.elementAt, ElementAccess.elementAt, ElementAccess.position,
      Eval.onHeap, Bind.bind, Action.bind, Action.gets]
    cases hindex : indexIn index (machine.heap.items ref).size with
    | error fault => rfl
    | ok position =>
      have hposition := (Intrinsic.indexIn_eq_ok_iff.1 hindex).2
      simp only [Pure.pure, Action.pure, h.read hposition]
      simp [hposition]
  | text value =>
    simp only [Eval.query, Betty.elementAt, ElementAccess.elementAt, ElementAccess.position,
      Eval.onHeap, Bind.bind, Action.bind]
    cases hindex : indexIn index value.text.length with
    | error fault => rfl
    | ok position =>
      have hposition : position < value.text.toList.length :=
        (Intrinsic.indexIn_eq_ok_iff.1 hindex).2
      simp only [Pure.pure, Action.pure, h.character hposition]
      simp [hposition]
  | _ => rfl

theorem Exact.removeAt (h : access.Exact) (list index : Value) :
    Intrinsic.removeAt list index = access.removeAt list index := by
  funext heap
  unfold Intrinsic.removeAt Intrinsic.changeList ElementAccess.removeAt
  cases list with
  | list ref =>
    dsimp only
    simp only [ElementAccess.position, Bind.bind, Action.bind, Action.gets]
    cases hindex : indexIn index (heap.items ref).size with
    | error fault => rfl
    | ok position =>
      have hposition := (Intrinsic.indexIn_eq_ok_iff.1 hindex).2
      have hmodify : heap.modify ref (fun items => items.eraseIdxIfInBounds position) =
          heap.modify ref fun _ => (heap.items ref).eraseIdx position hposition :=
        Heap.modify_congr (dif_pos hposition)
      simp only [Pure.pure, Action.pure, h.remove hposition, hmodify]
  | _ => rfl

/-- Writing an element. -/
theorem Exact.write_eq (h : access.Exact) {machine : Machine} {ref : ListRef} {position : Nat}
    (hposition : position < (machine.heap.items ref).size) (value : Value) :
    Eval.updateHeap (fun heap => heap.modify ref fun items => items.setIfInBounds position value)
      machine = Eval.onHeap (access.write ref position value) machine := by
  have hmodify : machine.heap.modify ref (fun items => items.setIfInBounds position value) =
      machine.heap.modify ref fun _ => (machine.heap.items ref).set position value hposition :=
    Heap.modify_congr (dif_pos hposition)
  unfold Eval.updateHeap Eval.onHeap Action.update
  simp only [h.write value hposition, hmodify]

/-- Reading an element. -/
theorem Exact.read_eq (h : access.Exact) {machine : Machine} {ref : ListRef} {position : Nat}
    (hposition : position < (machine.heap.items ref).size) :
    Eval.query (fun machine => .ok (elementValue machine ref position)) machine =
      Eval.onHeap (access.read ref position) machine := by
  unfold Eval.onHeap Eval.query elementValue
  simp [h.read hposition, hposition]

/-- The value to be assigned to an element is the same, and the element is still there. -/
theorem Exact.assignedValue (h : access.Exact) {machine : Machine} {ref : ListRef}
    {position : Nat} (hposition : position < (machine.heap.items ref).size)
    (op : Option BinaryOp) (value : Value) :
    (Plan.assignedValue op (Plan.fetch (fun machine => .ok (elementValue machine ref position))
        fun element => [element]) value).run machine =
      access.assignedValue ref position op value machine ∧
    ∀ updated after, access.assignedValue ref position op value machine = .done updated after →
      position < (after.heap.items ref).size := by
  cases op with
  | none =>
    refine ⟨rfl, fun updated after hafter => ?_⟩
    cases hafter
    exact hposition
  | some op =>
    have hread := h.read_eq hposition
    have hdone : Eval.onHeap (access.read ref position) machine =
        .done ((machine.heap.items ref)[position]) machine := by
      simp [Eval.onHeap, h.read hposition]
    rw [run_assignedValue]
    simp only [Plan.run, ElementAccess.assignedValue, Bind.bind, Action.bind]
    rw [hread, hdone]
    refine ⟨rfl, fun updated after hafter => ?_⟩
    simp only [Eval.onHeap] at hafter
    split at hafter
    · next hcombined =>
      cases hafter
      exact Nat.lt_of_lt_of_le hposition (combined_size_le hcombined ref)
    · cases hafter
    · cases hafter

theorem Exact.assign (h : access.Exact) (fuel : Nat) (place : Position) (collection index : Expr)
    (op : Option BinaryOp) (value : Expr) :
    (Plan.assignTo (fuel + 1) (.index place collection index) op value).run =
      access.assign (evaluate fuel) place collection index op value := by
  funext machine
  rw [run_assignTo_index]
  unfold ElementAccess.assign
  refine Action.bind_congr rfl fun value after _ => ?_
  refine Action.bind_congr rfl fun collection after _ => ?_
  refine Action.bind_congr rfl fun index after _ => ?_
  refine Action.bind_congr rfl fun found after hplace => ?_
  obtain ⟨ref, position⟩ := found
  obtain ⟨hfound, rfl⟩ := Eval.query_done (Eval.located_done hplace)
  -- The position has been checked. What is combined may make the list longer before the write.
  obtain ⟨hassigned, hkept⟩ := h.assignedValue (elementPlace_ok hfound) op value
  refine Action.bind_congr hassigned fun updated last hdone => ?_
  exact Action.bind_congr (h.write_eq (hkept updated last hdone) updated) fun _ _ _ => rfl

theorem Exact.step (h : access.Exact) (fuel : Nat) (up : Bool) (fixity : Fixity) (place : Position)
    (collection index : Expr) :
    (Plan.step (fuel + 1) up fixity (.index place collection index)).run =
      access.step (evaluate fuel) up fixity collection index := by
  funext machine
  rw [Plan.step]
  unfold ElementAccess.step
  refine Action.bind_congr rfl fun collection after _ => ?_
  refine Action.bind_congr rfl fun index after _ => ?_
  refine Action.bind_congr rfl fun found after hplace => ?_
  obtain ⟨ref, position⟩ := found
  obtain ⟨hfound, rfl⟩ := Eval.query_done hplace
  have hposition := elementPlace_ok hfound
  refine Action.bind_congr (h.read_eq hposition) fun old last hold => ?_
  rw [← h.read_eq hposition] at hold
  cases hold
  refine Action.bind_congr rfl fun new last hnew => ?_
  obtain rfl := Eval.ofTyped_done hnew
  exact Action.bind_congr (h.write_eq hposition new) fun _ _ _ => rfl

end ElementAccess

/-- Which values are indices, and that every access to an element is within the bounds.

* A value is an index into a sequence if it is a number whose exact value is a position of the
  sequence. What is no integer is refused because of its type, and an integer that is no
  position because it is out of range.
* Whatever an access does at a position that there is not, the element that an expression yields,
  an assignment to an element, a step of an element and the removal of an element are the same.
  So each of them reads, writes and removes elements only at positions that there are at that
  moment, in every state and whatever the expressions are that have been evaluated before. -/
theorem elements_in_bounds :
    (∀ (index : Value) (length : Nat),
      (∀ position, indexIn index length = .ok position ↔
        index.IsPosition position ∧ position < length) ∧
      ((∃ fault, indexIn index length = .error (.type fault)) ↔ index.NotInteger) ∧
      ∀ x, indexIn index length = .error (.indexOutOfRange x length) ↔
        index = .number x ∧ ∃ n : ℤ, Number.rational? x = some (n : ℚ) ∧ (n < 0 ∨ length ≤ n)) ∧
    ∀ access : ElementAccess, access.Exact → ∀ fuel : Nat,
      (∀ (place : Position) (collection index : Expr),
        evaluate (fuel + 1) (.index place collection index) = Eval.located place do
          let collection ← evaluate fuel collection
          let index ← evaluate fuel index
          Eval.onHeap (access.elementAt collection index)) ∧
      (∀ (place : Position) (collection index : Expr) (op : Option BinaryOp) (value : Expr),
        (Plan.assignTo (fuel + 1) (.index place collection index) op value).run =
          access.assign (evaluate fuel) place collection index op value) ∧
      (∀ (up : Bool) (fixity : Fixity) (place : Position) (collection index : Expr),
        (Plan.step (fuel + 1) up fixity (.index place collection index)).run =
          access.step (evaluate fuel) up fixity collection index) ∧
      ∀ list index : Value, Intrinsic.apply fuel .removeat [list, index] =
        Eval.onHeap (access.removeAt list index) := by
  refine ⟨fun index length => ⟨fun position => Intrinsic.indexIn_eq_ok_iff,
    indexIn_eq_typeFault_iff, fun x => indexIn_eq_outOfRange_iff⟩, fun access h fuel =>
    ⟨fun place collection index => ?_, h.assign fuel, h.step fuel, fun list index => ?_⟩⟩
  · simp only [← h.elementAt]
    rfl
  · rw [← h.removeAt]
    rfl

/-- A list that holds itself. -/
def Machine.selfContained : Machine :=
  { Machine.initial (.ofInput []) with
    environment := ⟨#[⟨[("held", .list 0)]⟩], [0], .empty⟩
    heap := ⟨#[#[.list 0]], .empty, 0⟩ }

/-- `held[0] += held` adds to the list that the element is written to, and does not leave its
bounds. -/
theorem elements_in_bounds_selfContained :
    let start : Position := ⟨1, 1⟩
    ElementAccess.strict.Exact ∧
    ∃ final, ElementAccess.strict.assign (evaluate 1) start (.name start "held")
        (.number start (Float.ofBits 0)) (some .add) (.name start "held") Machine.selfContained =
          .done (.list 0) final ∧
      (Plan.assignTo 2 (.index start (.name start "held") (.number start (Float.ofBits 0)))
        (some .add) (.name start "held")).run Machine.selfContained = .done (.list 0) final ∧
      final.heap.items 0 = #[.list 0, .list 0] := by
  intro start
  have hassign := (elements_in_bounds.2 .strict ElementAccess.strict_exact 1).2.1 start
    (.name start "held") (.number start (Float.ofBits 0)) (some .add) (.name start "held")
  have hzero : Number.integer? (Float.ofBits 0) = some 0 := by decide +kernel
  have hplace : elementPlace Machine.selfContained.heap .elementAssignment (.list 0)
      (.number (Float.ofBits 0)) = .ok (0, 0) := by
    simp [elementPlace, indexIn, hzero, Machine.selfContained, Heap.items]
  have hheld : evaluate 1 (.name start "held") Machine.selfContained =
      .done (.list 0) Machine.selfContained := rfl
  have hindex : evaluate 1 (.number start (Float.ofBits 0)) Machine.selfContained =
      .done (.number (Float.ofBits 0)) Machine.selfContained := rfl
  rw [hassign]
  simp only [ElementAccess.assign, Bind.bind, Action.bind, hheld, hindex, Eval.located,
    Eval.query, hplace]
  exact ⟨ElementAccess.strict_exact, _, rfl, rfl, rfl⟩

end Betty
