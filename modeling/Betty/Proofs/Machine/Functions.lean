import Betty.Proofs.Heap.Policy

/-!
# Which functions there are in a machine

Functions are created by two forms of the syntax only. Everything else that a program
does, all operators and intrinsic functions included, passes on the functions that are
there already. So if all functions of a machine have a property, then the operations
below yield no function without it. None of them fails because of malformed syntax or of
a jump that has no goal.

## Main definitions

* `Value.Only`, `Heap.Only`, `Environment.Only`, `Machine.Only`: all functions in them have
  a property.
-/

namespace Betty

/-! ### Values and tables -/

/-- The value is no function, or one whose declaration is good. -/
def Value.Only (good : Declaration → Prop) : Value → Prop
  | .function closure => good closure.declaration
  | _ => True

/-- All entries of the table have a property. -/
def Table.All {α : Type} (has : α → Prop) (table : Table α) : Prop :=
  ∀ entry ∈ table.entries, has entry.2

namespace Table

variable {α : Type} {has : α → Prop} {table : Table α}

theorem all_empty : (empty : Table α).All has := by
  simp [All, empty]

theorem All.get? (h : table.All has) {name : String} {value : α}
    (hget : table.get? name = some value) : has value := by
  unfold Table.get? at hget
  obtain ⟨entry, hentry, rfl⟩ := Option.map_eq_some_iff.1 hget
  exact h entry (List.mem_of_find?_eq_some hentry)

theorem All.put (h : table.All has) (name : String) {value : α} (hvalue : has value) :
    (table.put name value).All has := by
  obtain ⟨entries⟩ := table
  unfold All Table.put
  unfold All at h
  simp only at h ⊢
  induction entries with
  | nil => simpa [insertEntry] using hvalue
  | cons entry rest ih =>
    have hrest := ih fun other hother => h other (List.mem_cons_of_mem _ hother)
    unfold insertEntry
    split
    · rintro other (_ | ⟨_, hother⟩)
      · exact hvalue
      · exact h other (List.mem_cons_of_mem _ hother)
    · split
      · rintro other (_ | ⟨_, hother⟩)
        · exact h entry (List.mem_cons_self)
        · exact hrest other hother
      · rintro other (_ | ⟨_, hother⟩)
        · exact hvalue
        · exact h other hother

end Table

/-! ### The heap -/

section

variable {good : Declaration → Prop}

/-- All functions among the elements of lists are good. -/
def Heap.Only (good : Declaration → Prop) (heap : Heap) : Prop :=
  ∀ items ∈ heap.cells, ∀ value ∈ items, value.Only good

namespace Heap

variable {heap : Heap}

theorem only_empty : empty.Only good := by
  simp [Only, empty]

theorem Only.items (h : heap.Only good) (ref : ListRef) :
    ∀ value ∈ heap.items ref, value.Only good := by
  unfold Heap.items
  rw [Array.getD_eq_getD_getElem?]
  cases hget : heap.cells[ref]? with
  | none => simp
  | some items => exact h items (Array.mem_of_getElem? hget)

theorem Only.alloc (h : heap.Only good) {items : Array Value}
    (hitems : ∀ value ∈ items, value.Only good) : (heap.alloc items).2.Only good := by
  intro cell hcell
  rcases Array.mem_push.1 hcell with hcell | rfl
  · exact h cell hcell
  · exact hitems

theorem Only.modify (h : heap.Only good) (ref : ListRef) {change : Array Value → Array Value}
    (hchange : ∀ items, (∀ value ∈ items, value.Only good) →
      ∀ value ∈ change items, value.Only good) : (heap.modify ref change).Only good := by
  intro cell hcell
  obtain ⟨index, hindex, rfl⟩ := Array.mem_iff_getElem.1 hcell
  simp only [Heap.modify, Array.getElem_modify]
  split
  · exact hchange _ (h _ (Array.getElem_mem _))
  · exact h _ (Array.getElem_mem _)

end Heap

/-- The policy that all functions at hand are good. -/
def HeapPolicy.only (good : Declaration → Prop) : HeapPolicy where
  value := Value.Only good
  heap := Heap.Only good
  plain {item} h := by
    cases item with
    | function closure => cases h
    | _ => trivial
  items h _ := h.items _
  alloc h hitems := ⟨trivial, h.alloc hitems⟩
  modify h _ hchange := h.modify _ hchange
  intern _ h := h
  number h := h

/-! ### Faults -/

theorem variableValue_fault {machine : Machine} {name : String} {fault : Fault}
    (h : variableValue machine name = .error fault) : fault.isOrdinary := by
  unfold variableValue at h
  split at h
  · cases h
  · split at h <;> cases h
    rfl

theorem lookup_fault {env : Environment} {name : String} {fault : Fault}
    (h : env.lookup name = .error fault) : fault.isOrdinary := by
  unfold Environment.lookup at h
  split at h <;> cases h
  rfl

theorem resolveFunction_fault {machine : Machine} {name : String} {fault : Fault}
    (h : resolveFunction machine name = .error fault) : fault.isOrdinary := by
  unfold resolveFunction at h
  split at h
  · cases h
  · split at h
    · cases h
    · split at h <;> cases h <;> rfl

theorem elementAt_fault {heap : Heap} {collection index : Value} {fault : Fault}
    (h : elementAt heap collection index = .error fault) : fault.isOrdinary := by
  unfold elementAt at h
  split at h
  · split at h
    · cases h
    · next hindex =>
      cases h
      exact indexIn_fault hindex
  · split at h
    · cases h
    · next hindex =>
      cases h
      exact indexIn_fault hindex
  · cases h
    rfl

theorem elementPlace_fault {heap : Heap} {refusal : Kind → TypeFault} {collection index : Value}
    {fault : Fault} (h : elementPlace heap refusal collection index = .error fault) :
    fault.isOrdinary := by
  unfold elementPlace at h
  split at h
  · split at h
    · cases h
    · next hindex =>
      cases h
      exact indexIn_fault hindex
  · cases h
    rfl

theorem Console.write_fault (text : String) (console : Console) :
    (Console.write text console).Meets (fun _ _ => True) (fun fault _ => fault.isOrdinary)
      True := by
  unfold Console.write
  split
  · trivial
  · rfl

theorem Console.readLine_fault (console : Console) :
    (Console.readLine console).Meets (fun _ _ => True) (fun fault _ => fault.isOrdinary) True := by
  unfold Console.readLine
  dsimp only
  split
  · trivial
  · rfl

theorem Intrinsic.checkArity_fault {intrinsic : Intrinsic} {count : Nat} {fault : Fault}
    (h : intrinsic.checkArity count = .error fault) : fault.isOrdinary := by
  unfold checkArity at h
  split at h <;> cases h
  rfl

/-! ### The machine -/

/-- All functions among the values of names are good. -/
structure Environment.Only (good : Declaration → Prop) (env : Environment) : Prop where
  frames : ∀ frame ∈ env.frames, frame.All (Value.Only good)
  globals : env.globals.All (Value.Only good)

namespace Environment.Only

variable {env : Environment}

theorem frame (h : env.Only good) (ref : FrameRef) : (env.frame ref).All (Value.Only good) := by
  unfold Environment.frame
  rw [Array.getD_eq_getD_getElem?]
  cases hget : env.frames[ref]? with
  | none => exact Table.all_empty
  | some frame => exact h.frames frame (Array.mem_of_getElem? hget)

theorem push (h : env.Only good) : env.push.Only good := by
  refine ⟨fun frame hframe => ?_, h.globals⟩
  rcases Array.mem_push.1 hframe with hframe | rfl
  · exact h.frames frame hframe
  · exact Table.all_empty

theorem enterCall (h : env.Only good) (captured : Chain) : (env.enterCall captured).Only good :=
  push ⟨h.frames, h.globals⟩

theorem bindIn (h : env.Only good) (ref : FrameRef) (name : String) {value : Value}
    (hvalue : value.Only good) : (env.bindIn ref name value).Only good := by
  refine ⟨fun frame hframe => ?_, h.globals⟩
  obtain ⟨index, hindex, rfl⟩ := Array.mem_iff_getElem.1 hframe
  simp only [Environment.bindIn, Array.getElem_modify]
  split
  · exact (h.frames _ (Array.getElem_mem _)).put name hvalue
  · exact h.frames _ (Array.getElem_mem _)

theorem bindGlobal (h : env.Only good) (name : String) {value : Value} (hvalue : value.Only good) :
    (env.bindGlobal name value).Only good :=
  ⟨h.frames, h.globals.put name hvalue⟩

theorem declareLocal (h : env.Only good) (name : String) {value : Value}
    (hvalue : value.Only good) : (env.declareLocal name value).Only good := by
  unfold Environment.declareLocal
  split
  · exact h.bindIn _ name hvalue
  · exact h.bindGlobal name hvalue

theorem set (h : env.Only good) (name : String) {value : Value} (hvalue : value.Only good) :
    (env.set name value).Only good := by
  unfold Environment.set
  split
  · exact h.bindIn _ name hvalue
  · split
    · exact h.bindGlobal name hvalue
    · exact h.declareLocal name hvalue

theorem local? (h : env.Only good) {name : String} {value : Value}
    (hlocal : env.local? name = some value) : value.Only good := by
  obtain ⟨ref, _, hget⟩ := List.exists_of_findSome?_eq_some hlocal
  exact (h.frame ref).get? hget

theorem get? (h : env.Only good) {name : String} {value : Value}
    (hget : env.get? name = some value) : value.Only good := by
  unfold Environment.get? at hget
  cases hlocal : env.local? name with
  | none =>
    rw [hlocal] at hget
    exact h.globals.get? hget
  | some found =>
    rw [hlocal] at hget
    cases hget
    exact h.local? hlocal

end Environment.Only

/-- All functions of the machine are good: those among the values of names and the
elements of lists, the one that is being returned, and those of the program. -/
structure Machine.Only (good : Declaration → Prop) (machine : Machine) : Prop where
  environment : machine.environment.Only good
  heap : machine.heap.Only good
  returned : machine.control.returned.Only good
  functions : machine.functions.All good

theorem Machine.only_initial (console : Console) : (initial console).Only good :=
  ⟨⟨by simp [initial, Environment.empty], Table.all_empty⟩, Heap.only_empty, trivial,
    Table.all_empty⟩

end

end Betty
