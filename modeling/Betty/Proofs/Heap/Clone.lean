import Betty.Proofs.Assignment
import Betty.Proofs.Heap.Unfold

/-!
# Copies

A copy of a value has new lists in all places where the value has lists, one for every place,
even where the value has one list in several places. So nothing that happens later to a list
from before shows in the copy, and nothing that happens to a list of the copy shows in the
value.

## Main definitions

* `Heap.Alters`: at most certain lists are different, and there may be new ones.
* `Heap.Copied`: some values are copies of others, with new lists of their own.
* `Edit`, `Heap.Edited`: the changes that a program can make to lists, and their sequences.

## Main results

* `Heap.cloneWithin_copied`: what a copy is.
* `Edit.apply_alters`: an edit changes no other lists than its targets.
* `evaluate_element_assignment`: assignments to elements are edits.
* `clone_independent`: the copy and the value do not depend on each other.
-/

namespace Betty

/-! ### Heaps that grow -/

namespace Heap

/-- Only lists of a certain kind may have been changed, and none has been given back. -/
structure Alters (changed : ListRef → Prop) (before after : Heap) : Prop where
  size : before.cells.size ≤ after.cells.size
  kept : ∀ ref < before.cells.size, ¬ changed ref → after.items ref = before.items ref

namespace Alters

variable {changed : ListRef → Prop} {first second third : Heap}

theorem refl (changed : ListRef → Prop) (heap : Heap) : Alters changed heap heap :=
  ⟨Nat.le_refl _, fun _ _ _ => rfl⟩

theorem trans (h : Alters changed first second) (h' : Alters changed second third) :
    Alters changed first third where
  size := Nat.le_trans h.size h'.size
  kept ref href hspared :=
    (h'.kept ref (Nat.lt_of_lt_of_le href h.size) hspared).trans (h.kept ref href hspared)

theorem alloc (changed : ListRef → Prop) (heap : Heap) (items : Array Value) :
    Alters changed heap (heap.alloc items).2 where
  size := by simp [Heap.alloc]
  kept ref href _ := by rw [items_alloc, if_neg (Nat.ne_of_lt href)]

/-- What is not about lists leaves all of them alone. -/
theorem of_cells (changed : ListRef → Prop) {first second : Heap}
    (h : second.cells = first.cells) : Alters changed first second where
  size := by rw [h]
  kept ref _ _ := by
    unfold Heap.items
    rw [h]

theorem modify {ref : ListRef} (h : changed ref) (heap : Heap)
    (change : Array Value → Array Value) : Alters changed heap (heap.modify ref change) where
  size := Nat.le_of_eq (heap.size_modify ref change).symm
  kept other _ hspared := by
    rw [items_modify, if_neg]
    rintro ⟨rfl, -⟩
    exact hspared h

theorem mono {allowed : ListRef → Prop} (h : Alters changed first second)
    (hallowed : ∀ ref, changed ref → allowed ref) : Alters allowed first second :=
  ⟨h.size, fun ref href hspared => h.kept ref href fun hchanged => hspared (hallowed ref hchanged)⟩

/-- A value whose lists are spared unfolds as before. -/
theorem within (h : Alters changed first second) {value : Value} {depth : Nat}
    (hspared : ∀ ref ∈ first.listsWithin depth value, ref < first.cells.size ∧ ¬ changed ref) :
    second.unfoldWithin depth value = first.unfoldWithin depth value ∧
      second.listsWithin depth value = first.listsWithin depth value :=
  within_congr depth fun ref href => h.kept ref (hspared ref href).1 (hspared ref href).2

end Alters

/-! ### Copies of values -/

/-- The second values are copies of the first ones: no list has been changed, they unfold
alike, and all lists of the copies are new and different from each other. -/
structure Copied (before after : Heap) (values copies : List Value) : Prop where
  grows : Alters (fun _ => False) before after
  unfold : ∀ depth, copies.map (after.unfoldWithin depth) = values.map (before.unfoldWithin depth)
  new : ∀ depth, ∀ ref ∈ copies.flatMap (after.listsWithin depth),
    before.cells.size ≤ ref ∧ ref < after.cells.size
  nodup : ∀ depth, (copies.flatMap (after.listsWithin depth)).Nodup

namespace Copied

theorem nil (heap : Heap) : heap.Copied heap [] [] :=
  ⟨.refl _ heap, fun _ => rfl, by simp, by simp⟩

/-- A value that is no list is a copy of itself. -/
theorem self (heap : Heap) {value : Value} (h : ∀ ref, value ≠ .list ref) :
    heap.Copied heap [value] [value] := by
  have hlists : ∀ depth, heap.listsWithin depth value = [] := by
    intro depth
    cases value with
    | list ref => exact absurd rfl (h ref)
    | _ => cases depth <;> rfl
  exact ⟨.refl _ heap, fun _ => rfl, by simp [hlists], by simp [hlists]⟩

/-- Values are copied one after another. -/
theorem cons {first second third : Heap} {value copy : Value} {values copies : List Value}
    (h : first.Copied second [value] [copy]) (h' : second.Copied third values copies)
    (hexist : ∀ item ∈ values, ∀ depth, ∀ ref ∈ first.listsWithin depth item,
      ref < first.cells.size) :
    first.Copied third (value :: values) (copy :: copies) := by
  have hnew : ∀ depth, ∀ ref ∈ second.listsWithin depth copy,
      first.cells.size ≤ ref ∧ ref < second.cells.size := by
    simpa using h.new
  -- the first copy stays as it is, and the other values have not been touched before
  have hcopy : ∀ depth, third.unfoldWithin depth copy = second.unfoldWithin depth copy ∧
      third.listsWithin depth copy = second.listsWithin depth copy := fun depth =>
    h'.grows.within fun ref href => ⟨(hnew depth ref href).2, id⟩
  have hvalues : ∀ depth, values.map (second.unfoldWithin depth) =
      values.map (first.unfoldWithin depth) := fun depth =>
    List.map_congr_left fun item hitem =>
      (h.grows.within fun ref href => ⟨hexist item hitem depth ref href, id⟩).1
  have hfirst : ∀ depth, second.unfoldWithin depth copy = first.unfoldWithin depth value := by
    simpa using h.unfold
  refine ⟨h.grows.trans h'.grows, fun depth => ?_, fun depth ref href => ?_, fun depth => ?_⟩
  · rw [List.map_cons, List.map_cons, (hcopy depth).1, hfirst, h'.unfold, hvalues]
  · rw [List.flatMap_cons, (hcopy depth).2] at href
    rcases List.mem_append.1 href with href | href
    · have hbounds := hnew depth ref href
      exact ⟨hbounds.1, Nat.lt_of_lt_of_le hbounds.2 h'.grows.size⟩
    · have hbounds := h'.new depth ref href
      exact ⟨Nat.le_trans h.grows.size hbounds.1, hbounds.2⟩
  · rw [List.flatMap_cons, (hcopy depth).2]
    have hnodup : (second.listsWithin depth copy).Nodup := by simpa using h.nodup depth
    refine hnodup.append (h'.nodup depth) fun ref href href' => ?_
    exact absurd (hnew depth ref href).2 (Nat.not_lt.2 (h'.new depth ref href').1)

/-- A new list of copies is a copy of the list. -/
theorem list {before after full : Heap} {ref : ListRef} {copies : List Value}
    (h : before.Copied after (before.items ref).toList copies)
    (hgrows : Alters (fun _ => False) after full) (hsize : after.cells.size < full.cells.size)
    (hitems : full.items after.cells.size = copies.toArray) :
    before.Copied full [.list ref] [.list after.cells.size] := by
  have hcopies : ∀ depth, ∀ copy ∈ copies,
      full.unfoldWithin depth copy = after.unfoldWithin depth copy ∧
        full.listsWithin depth copy = after.listsWithin depth copy := by
    intro depth copy hcopy
    refine hgrows.within fun other hother => ⟨(h.new depth other ?_).2, id⟩
    exact List.mem_flatMap.2 ⟨copy, hcopy, hother⟩
  have hlists : ∀ depth, full.listsWithin (depth + 1) (.list after.cells.size) =
      after.cells.size :: copies.flatMap (after.listsWithin depth) := by
    intro depth
    rw [listsWithin, hitems]
    exact congrArg _ (List.flatMap_congr fun copy hcopy => (hcopies depth copy hcopy).2)
  refine ⟨h.grows.trans hgrows, fun depth => ?_, fun depth => ?_, fun depth => ?_⟩
  · cases depth with
    | zero => rfl
    | succ depth =>
      simp only [List.map_cons, List.map_nil, unfoldWithin]
      rw [hitems, ← h.unfold depth]
      exact congrArg (fun elements => [Unfolding.list elements])
        (List.map_congr_left fun copy hcopy => (hcopies depth copy hcopy).1)
  · cases depth with
    | zero => simp [listsWithin]
    | succ depth =>
      intro other hother
      rw [List.flatMap_singleton, hlists] at hother
      rcases List.mem_cons.1 hother with rfl | hother
      · exact ⟨h.grows.size, hsize⟩
      · have hbounds := h.new depth other hother
        exact ⟨hbounds.1, Nat.lt_trans hbounds.2 hsize⟩
  · cases depth with
    | zero => simp [listsWithin]
    | succ depth =>
      rw [List.flatMap_singleton, hlists]
      refine List.nodup_cons.2 ⟨fun hmem => ?_, h.nodup depth⟩
      exact absurd (h.new depth _ hmem).2 (Nat.lt_irrefl _)

end Copied

/-- Values that are copied one after another, by a function that copies. -/
theorem copyAll_copied {depth : Nat} (clone : Heap → Value → Value × Heap)
    (hclone : ∀ (heap : Heap) (value : Value), heap.Bounded depth value →
      heap.Copied (clone heap value).2 [value] [(clone heap value).1])
    (items : List Value) (heap : Heap) (hitems : ∀ item ∈ items, heap.Bounded depth item)
    (copied : Array Value) :
    ∃ copies : List Value, ∃ after : Heap,
      items.foldl (fun (copied, heap) item =>
        let (item, heap) := clone heap item
        (copied.push item, heap)) (copied, heap) = (copied ++ copies.toArray, after) ∧
      heap.Copied after items copies := by
  induction items generalizing heap copied with
  | nil => exact ⟨[], heap, by simp, .nil heap⟩
  | cons item rest ih =>
    -- The other elements are copied in the heap that the first copy leaves.
    have hfirst := hclone heap item (hitems item List.mem_cons_self)
    have hrest : ∀ other ∈ rest, heap.Bounded depth other :=
      fun other hother => hitems other (List.mem_cons_of_mem _ hother)
    obtain ⟨copies, after, hfold, hcopied⟩ := ih (clone heap item).2
      (fun other hother => (hrest other hother).mono hfirst.grows.size
        fun ref href => hfirst.grows.kept ref href id)
      (copied.push (clone heap item).1)
    refine ⟨(clone heap item).1 :: copies, after, ?_,
      hfirst.cons hcopied fun other hother deep => (hrest other hother).exist deep⟩
    rw [List.foldl_cons]
    refine hfold.trans ?_
    simp

/-- A copy that goes deep enough is one. -/
theorem cloneWithin_copied {heap : Heap} {depth : Nat} {value : Value}
    (h : heap.Bounded depth value) :
    heap.Copied (heap.cloneWithin depth value).2 [value] [(heap.cloneWithin depth value).1] := by
  induction depth generalizing heap value with
  | zero =>
    cases value with
    | list ref => exact h.elim
    | _ => exact .self heap (by simp)
  | succ depth ih =>
    cases value with
    | list ref =>
      obtain ⟨copies, after, hfold, hcopied⟩ := copyAll_copied (cloneWithin depth)
        (fun heap value hvalue => ih hvalue) (heap.items ref).toList heap
        (fun item hitem => h.2 item (Array.mem_toList_iff.1 hitem)) #[]
      rw [Array.foldl_toList] at hfold
      rw [cloneWithin, hfold, Array.empty_append]
      refine hcopied.list (.alloc _ after copies.toArray) (by simp [Heap.alloc]) ?_
      rw [items_alloc, if_pos rfl]
    | _ => exact .self heap (by simp)

end Heap

/-! ### Edits -/

/-- The value that is assigned to a place: the new one, or the old one combined with it. -/
def assignedTo (op : Option BinaryOp) (current value : Value) : HeapAction Value :=
  match op with
  | none => pure value
  | some op => combined op current value

/-- An assignment to an element of a list. -/
def assignElement (list : ListRef) (index : Value) (op : Option BinaryOp) (value : Value) :
    HeapAction Value :=
  fun heap =>
    match indexIn index (heap.items list).size with
    | .error fault => .failed fault heap
    | .ok position =>
      match assignedTo op ((heap.items list).getD position .none) value heap with
      | .done updated heap =>
        .done updated (heap.modify list fun items => items.setIfInBounds position updated)
      | ended => ended

/-- A change of a list by a program, or something new: a list, a text or a function. -/
inductive Edit where
  | create (items : Array Value)
  | createText (text : String)
  | createFunction (declaration : Declaration) (chain : Chain)
  | assign (list : ListRef) (index : Value) (op : Option BinaryOp) (value : Value)
  | extend (list : ListRef) (value : Value)
  | append (list : ListRef) (item : Value)
  | remove (list : ListRef) (item : Value)
  | removeAt (list : ListRef) (index : Value)

namespace Edit

/-- What the edit does. -/
def action : Edit → HeapAction Value
  | create items => HeapAction.newList items
  | createText text => HeapAction.newText text
  | createFunction declaration chain => HeapAction.newFunction declaration chain
  | assign list index op value => assignElement list index op value
  | extend list value => combined .add (.list list) value
  | append list item => Intrinsic.appendTo (.list list) item
  | remove list item => Intrinsic.removeFrom (.list list) item
  | removeAt list index => Intrinsic.removeAt (.list list) index

/-- The lists that the edit is made on. To add to an element that is a list, by a compound
assignment, is an edit of this element too. -/
def targets (heap : Heap) : Edit → List ListRef
  | create _ | createText _ | createFunction _ _ => []
  | assign list index op _ => list ::
    match elementAt heap (.list list) index, op with
    | .ok (.list inner), some .add => [inner]
    | _, _ => []
  | extend list _ | append list _ | remove list _ | removeAt list _ => [list]

/-- The heap after the edit, whether it succeeds or fails. -/
def apply (edit : Edit) (heap : Heap) : Heap :=
  (edit.action heap).state?.getD heap

end Edit

/-- Combining values changes a list only if something is added to it. -/
theorem combined_alters (op : BinaryOp) (current value : Value) (heap : Heap) :
    Heap.Alters (fun ref => op = .add ∧ current = .list ref) heap
      ((combined op current value heap).state?.getD heap) := by
  rcases combined_cases op current value heap with ⟨ref, rfl, rfl, h⟩ | h
  · rw [h]
    exact .modify ⟨rfl, rfl⟩ heap _
  · rw [h]
    rcases applyBinary_cases op current value heap with
      ⟨items, h⟩ | ⟨text, h⟩ | ⟨result, h⟩ | ⟨fault, h⟩
    · rw [h]
      exact .alloc _ heap items
    · rw [h]
      exact .of_cells _ rfl
    · rw [h]
      exact .refl _ heap
    · rw [h]
      exact .refl _ heap

/-- The functions that change a list change no other one. -/
theorem Intrinsic.changeList_alters {changed : ListRef → Prop} {list : ListRef}
    (hlist : changed list) (intrinsic : Intrinsic)
    (change : Heap → Array Value → Except Fault (Array Value → Array Value)) (heap : Heap) :
    Heap.Alters changed heap
      ((changeList intrinsic (.list list) change heap).state?.getD heap) := by
  unfold changeList
  dsimp only
  cases change heap (heap.items list) with
  | ok edit => exact (Heap.Alters.modify hlist heap edit).trans (.alloc _ _ _)
  | error fault => exact .refl _ heap

/-- An assignment to an element changes the list, and the element if something is added to
it. -/
theorem assignElement_alters {changed : ListRef → Prop} {list : ListRef} {index : Value}
    {op : Option BinaryOp} {heap : Heap} (hlist : changed list)
    (hinner : ∀ inner, elementAt heap (.list list) index = .ok (.list inner) → op = some .add →
      changed inner) (value : Value) :
    Heap.Alters changed heap ((assignElement list index op value heap).state?.getD heap) := by
  unfold assignElement
  simp only [elementAt] at hinner
  cases hindex : indexIn index (heap.items list).size with
  | error fault => exact .refl _ heap
  | ok position =>
    rw [hindex] at hinner
    cases op with
    | none => exact .modify hlist heap _
    | some op =>
      have hcombined : Heap.Alters changed heap
          ((combined op ((heap.items list).getD position .none) value heap).state?.getD heap) := by
        refine (combined_alters op _ value heap).mono fun inner h => hinner inner ?_ ?_
        · rw [← h.2]
        · rw [h.1]
      simp only [assignedTo]
      cases hran : combined op ((heap.items list).getD position .none) value heap with
      | done updated after =>
        rw [hran] at hcombined
        exact hcombined.trans (.modify hlist after _)
      | failed fault after =>
        rw [hran] at hcombined
        exact hcombined
      | outOfFuel => exact .refl _ heap

/-- An edit changes no other lists than its targets. -/
theorem Edit.apply_alters (edit : Edit) (heap : Heap) :
    Heap.Alters (· ∈ edit.targets heap) heap (edit.apply heap) := by
  have hself : ∀ list : ListRef, list ∈ [list] := fun list => List.mem_singleton.2 rfl
  cases edit with
  | create items => exact .alloc _ heap items
  | createText text => exact .of_cells _ rfl
  | createFunction declaration chain => exact .of_cells _ rfl
  | assign list index op value =>
    refine assignElement_alters List.mem_cons_self (fun inner helement hop => ?_) value
    subst hop
    simp [helement]
  | extend list value =>
    refine (combined_alters .add (.list list) value heap).mono fun ref href => ?_
    cases href.2
    exact hself list
  | append list item =>
    unfold apply action Intrinsic.appendTo
    exact Intrinsic.changeList_alters (hself list) _ _ heap
  | remove list item =>
    unfold apply action Intrinsic.removeFrom
    exact Intrinsic.changeList_alters (hself list) _ _ heap
  | removeAt list index =>
    unfold apply action Intrinsic.removeAt
    exact Intrinsic.changeList_alters (hself list) _ _ heap

/-- The second heap comes from the first one by edits that are made on certain lists only. -/
inductive Heap.Edited (allowed : ListRef → Prop) (first : Heap) : Heap → Prop
  | start : Edited allowed first first
  | step {heap : Heap} (h : Edited allowed first heap) (edit : Edit)
      (hallowed : ∀ ref ∈ edit.targets heap, allowed ref) :
      Edited allowed first (edit.apply heap)

/-- A sequence of edits changes no other lists. -/
theorem Heap.Edited.alters {allowed : ListRef → Prop} {first last : Heap}
    (h : first.Edited allowed last) : Heap.Alters allowed first last := by
  induction h with
  | start => exact .refl _ first
  | step _ edit hallowed ih => exact ih.trans ((edit.apply_alters _).mono hallowed)

/-- An assignment to an element of a list does what the edit does. -/
theorem evaluate_element_assignment {fuel : Nat} {expr collection index : Expr}
    {machine first second third : Machine} {value position : Value} {list : ListRef}
    (hvalue : evaluate fuel expr machine = .done value first)
    (hcollection : evaluate fuel collection first = .done (.list list) second)
    (hindex : evaluate fuel index second = .done position third) (op : Option BinaryOp)
    (place target : Position) :
    (evaluate (fuel + 2) (.assign place (.index target collection index) op expr)
      machine).SameButPlace (Eval.onHeap (assignElement list position op value) third) := by
  change (Eval.located place (Plan.assignTo (fuel + 1) (.index target collection index) op
    expr).run machine).SameButPlace _
  rw [run_assignTo_index]
  simp only [run_assignedValue, Plan.run, Bind.bind, Action.bind, hvalue, hcollection, hindex,
    Eval.located, Eval.query, elementPlace, Eval.onHeap, assignElement]
  cases indexIn position (third.heap.items list).size with
  | error fault =>
    refine .failed ?_ third
    rw [RuntimeError.fault_locate, RuntimeError.fault_locate]
  | ok position =>
    cases op with
    | none => exact .done value _
    | some op =>
      simp only [assignedTo, elementValue, Action.bind, Eval.query, Eval.onHeap]
      cases hran : combined op ((third.heap.items list).getD position .none) value third.heap with
      | done updated heap => exact .done updated _
      | failed fault heap => exact .failed (RuntimeError.fault_locate _ _) _
      | outOfFuel => exact absurd hran (combined_ne_outOfFuel op _ value third.heap)

/-! ### Independence -/

/-- A value that is nested at most as deep as there are lists is shown in full by every later
heap in which it unfolds in the same way. -/
theorem Heap.display_eq {heap later : Heap} {value copy : Value}
    (h : heap.Bounded heap.cells.size value) (hsize : heap.cells.size ≤ later.cells.size)
    (hunfold : ∀ depth, later.unfoldWithin depth copy = heap.unfoldWithin depth value) :
    later.display copy = heap.display value := by
  rw [display_eq_text, display_eq_text, hunfold, h.unfoldWithin_eq hsize]

/-- The function `clone`, of a value without cycles, leaves every list as it is. The copy
unfolds like the value, and its lists are new and different from each other. Whatever edits are
made later on lists from before, the copy unfolds as it did and has the same text; and so does
the value, whatever edits are made on lists that were not there before. -/
theorem clone_independent {heap : Heap} {value : Value} (h : heap.Acyclic value) :
    let copy := (heap.clone value).1
    let after := (heap.clone value).2
    Intrinsic.cloneOf value heap = .done copy after ∧
    (∀ ref < heap.cells.size, after.items ref = heap.items ref) ∧
    (∀ depth, after.unfoldWithin depth copy = heap.unfoldWithin depth value) ∧
    (∀ depth, ∀ ref ∈ after.listsWithin depth copy,
      heap.cells.size ≤ ref ∧ ref < after.cells.size) ∧
    (∀ depth, (after.listsWithin depth copy).Nodup) ∧
    (∀ later, after.Edited (· < heap.cells.size) later →
      (∀ depth, later.unfoldWithin depth copy = after.unfoldWithin depth copy) ∧
      later.display copy = after.display copy) ∧
    ∀ later, after.Edited (heap.cells.size ≤ ·) later →
      (∀ depth, later.unfoldWithin depth value = heap.unfoldWithin depth value) ∧
      later.display value = heap.display value := by
  intro copy after
  have hbounded := h.bounded
  have hcopied : heap.Copied after [value] [copy] := Heap.cloneWithin_copied hbounded
  have hunfold : ∀ depth, after.unfoldWithin depth copy = heap.unfoldWithin depth value := by
    simpa using hcopied.unfold
  have hnew : ∀ depth, ∀ ref ∈ after.listsWithin depth copy,
      heap.cells.size ≤ ref ∧ ref < after.cells.size := by
    simpa using hcopied.new
  refine ⟨rfl, fun ref href => hcopied.grows.kept ref href id, hunfold, hnew,
    by simpa using hcopied.nodup, fun later hedited => ?_, fun later hedited => ?_⟩
  · have hlater : ∀ depth, later.unfoldWithin depth copy = after.unfoldWithin depth copy :=
      fun depth => (hedited.alters.within fun ref href =>
        ⟨(hnew depth ref href).2, Nat.not_lt.2 (hnew depth ref href).1⟩).1
    refine ⟨hlater, ?_⟩
    -- There may be more lists now, and so a greater depth; both texts are that of the value.
    rw [Heap.display_eq hbounded hcopied.grows.size hunfold]
    exact Heap.display_eq hbounded (Nat.le_trans hcopied.grows.size hedited.alters.size)
      fun depth => (hlater depth).trans (hunfold depth)
  · -- the copying and the edits together leave the lists from before alone
    have halters := (hcopied.grows.mono fun _ => False.elim).trans hedited.alters
    have hlater : ∀ depth, later.unfoldWithin depth value = heap.unfoldWithin depth value :=
      fun depth => (halters.within fun ref href =>
        ⟨hbounded.exist depth ref href, Nat.not_le.2 (hbounded.exist depth ref href)⟩).1
    exact ⟨hlater, Heap.display_eq hbounded halters.size hlater⟩

/-- A list that holds another one twice. -/
def Heap.twice : Heap := ⟨#[#[.boolean true], #[.list 0, .list 0]], .empty, 0⟩

theorem Heap.twice_acyclic : Heap.twice.Acyclic (.list 1) := by
  refine acyclic_of_older (fun outer inner hcontains => ?_) (by decide)
  match outer with
  | 0 => simp [Contains, twice, items] at hcontains
  | 1 =>
    have hinner : inner = 0 := by simpa [Contains, twice, items] using hcontains
    exact hinner ▸ Nat.zero_lt_one
  | outer + 2 => simp [Contains, twice, items] at hcontains

/-- The copy of the list holds two lists. It does not show what is added to the list that was
held twice, and this list does not show what is added to one of the two. -/
theorem clone_independent_twice :
    let after := (Heap.twice.clone (.list 1)).2
    let old := (Edit.append 0 (.boolean false)).apply after
    let new := (Edit.extend 2 (.list 0)).apply after
    Heap.twice.Acyclic (.list 1) ∧ (Heap.twice.clone (.list 1)).1 = .list 4 ∧
    (∀ depth, (after.listsWithin depth (.list 4)).Nodup) ∧
    old.items 0 = #[.boolean true, .boolean false] ∧
      old.display (.list 4) = after.display (.list 4) ∧
    new.items 2 = #[.boolean true, .boolean true] ∧
      new.display (.list 1) = Heap.twice.display (.list 1) := by
  intro after old new
  obtain ⟨-, -, -, -, hnodup, hcopy, hvalue⟩ := clone_independent Heap.twice_acyclic
  have hold : after.Edited (· < Heap.twice.cells.size) old := by
    refine .step .start _ fun ref href => ?_
    rw [List.mem_singleton.1 href]
    decide
  have hnew : after.Edited (Heap.twice.cells.size ≤ ·) new := by
    refine .step .start _ fun ref href => ?_
    rw [List.mem_singleton.1 href]
    decide
  exact ⟨Heap.twice_acyclic, rfl, hnodup, rfl, (hcopy old hold).2, rfl, (hvalue new hnew).2⟩

end Betty
