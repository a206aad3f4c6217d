import Betty.Store
import Betty.Proofs.Outcome
import Mathlib.Order.WellFounded

/-!
# Giving up handles

Giving up a handle may be the end of an object, and then the handles that the object has are
given up as well. This comes to an end, since every object ends once at most.

It may also come to a frame that is lent out. That happens only if the value that is given up
leads to the frame: through elements of lists, through the frames that functions have kept and
through what is bound in them. It does not happen if there is another handle to the value, and
it does if the value is a function without another handle that has kept the frame.

## Main definitions

* `Handles.live`: how many objects have not ended yet.
* `Machine.LeadsTo`: a value leads to a frame.
* `Store.Replaces`: what a change of a binding does.

## Main results

* `Handles.giveUp_ends`: giving up handles ends.
* `Handles.giveUp_meets`, `Handles.giveUp_lent`: when it comes to a frame that is lent out.
* `Store.rebind_replaces`: what becomes of a change of a binding.
-/

namespace Betty

/-! ### Counting -/

section

variable {α : Type} {p : α → Bool} {f : α → α}

theorem countP_modify_le (h : ∀ a, p (f a) → p a) (xs : Array α) (i : Nat) :
    (xs.modify i f).toList.countP p ≤ xs.toList.countP p := by
  rw [Array.toList_modify]
  generalize xs.toList = xs
  induction xs generalizing i with
  | nil => simp
  | cons x xs ih =>
    cases i with
    | zero =>
      rw [List.modify_zero_cons, List.countP_cons, List.countP_cons]
      have hx := h x
      grind
    | succ i =>
      rw [List.modify_succ_cons, List.countP_cons, List.countP_cons]
      exact Nat.add_le_add_right (ih i) _

theorem countP_modify_lt {xs : Array α} {i : Nat} {a : α} (hi : xs[i]? = some a) (ha : p a)
    (hfa : ¬ p (f a)) : (xs.modify i f).toList.countP p < xs.toList.countP p := by
  rw [Array.toList_modify]
  rw [← Array.getElem?_toList] at hi
  generalize xs.toList = xs at hi
  induction xs generalizing i with
  | nil => cases hi
  | cons x xs ih =>
    cases i with
    | zero =>
      cases hi
      rw [List.modify_zero_cons, List.countP_cons, List.countP_cons, if_pos ha, if_neg hfa]
      exact Nat.lt_succ_self _
    | succ i =>
      rw [List.modify_succ_cons, List.countP_cons, List.countP_cons]
      exact Nat.add_lt_add_right (ih hi) _

/-- What is not the default stands in the array. -/
theorem getElem?_of_getD {xs : Array α} {i : Nat} {default a : α} (h : xs.getD i default = a)
    (hne : default ≠ a) : xs[i]? = some a := by
  rw [Array.getD_eq_getD_getElem?] at h
  cases hi : xs[i]? with
  | none =>
    rw [hi] at h
    exact absurd h hne
  | some found =>
    rw [hi] at h
    exact congrArg some h

end

/-! ### Giving up handles ends -/

/-- How many steps the losses take, if no object ends with them. -/
def Loss.weight : Loss → Nat
  | scope _ => 2
  | _ => 1

/-- How many steps losses take, if no object ends with them. -/
def Loss.total : List Loss → Nat
  | [] => 0
  | loss :: losses => loss.weight + total losses

theorem Loss.total_append (losses rest : List Loss) :
    total (losses ++ rest) = total losses + total rest := by
  induction losses with
  | nil => rw [List.nil_append, total, Nat.zero_add]
  | cons loss losses ih => rw [List.cons_append, total, total, ih, Nat.add_assoc]

namespace Handles

/-- How many objects have not ended yet: lists, functions and frames with handles, and frames
whose bindings have not been given up. -/
def live (handles : Handles) : Nat :=
  handles.lists.toList.countP (· ≠ 0) + handles.functions.toList.countP (· ≠ 0) +
    handles.frames.toList.countP (·.count ≠ 0) + handles.frames.toList.countP (!·.cleared)

/-- A step is the end of an object, or leaves less to be given up. -/
def Progresses (handles : Handles) (weight : Nat) (step : List Loss × Handles) : Prop :=
  step.2.live < handles.live ∨ step.2.live ≤ handles.live ∧ Loss.total step.1 < weight

/-- One handle less never makes more objects live, and it ends an object that had no other. -/
theorem countP_drop (counts : Array Nat) (ref : Nat) :
    (counts.modify ref (· - 1)).toList.countP (· ≠ 0) ≤ counts.toList.countP (· ≠ 0) ∧
      (counts.getD ref 0 = 1 →
        (counts.modify ref (· - 1)).toList.countP (· ≠ 0) < counts.toList.countP (· ≠ 0)) := by
  refine ⟨countP_modify_le (by grind) counts ref, fun hlast => ?_⟩
  exact countP_modify_lt (getElem?_of_getD hlast (by decide)) (by decide) (by decide)

theorem dropList_progresses (handles : Handles) (machine : Machine) (ref : ListRef) :
    handles.Progresses 1 (handles.dropList machine ref) := by
  obtain ⟨hle, hlt⟩ := countP_drop handles.lists ref
  unfold dropList Progresses live
  by_cases hlast : handles.lists.getD ref 0 = 1
  · have hends := hlt hlast
    refine .inl ?_
    dsimp only
    omega
  · have hmore : (handles.lists.getD ref 0 == 1) = false := by simpa using hlast
    refine .inr ⟨?_, ?_⟩
    · dsimp only
      omega
    · simp only [hmore]
      exact Nat.zero_lt_one

theorem dropFunction_progresses (handles : Handles) (ref : FunctionRef) (chain : Chain) :
    handles.Progresses 1 (handles.dropFunction ref chain) := by
  obtain ⟨hle, hlt⟩ := countP_drop handles.functions ref
  unfold dropFunction Progresses live
  by_cases hlast : handles.functions.getD ref 0 = 1
  · have hends := hlt hlast
    refine .inl ?_
    dsimp only
    omega
  · have hmore : (handles.functions.getD ref 0 == 1) = false := by simpa using hlast
    refine .inr ⟨?_, ?_⟩
    · dsimp only
      omega
    · simp only [hmore]
      exact Nat.zero_lt_one

/-- One handle less to a frame. -/
theorem countP_dropFrame (frames : Array FrameHandles) (ref : FrameRef) :
    let after := frames.modify ref fun frame => { frame with count := frame.count - 1 }
    after.toList.countP (!·.cleared) ≤ frames.toList.countP (!·.cleared) ∧
    after.toList.countP (·.count ≠ 0) ≤ frames.toList.countP (·.count ≠ 0) ∧
      ((frames.getD ref ⟨0, true⟩).count = 1 →
        after.toList.countP (·.count ≠ 0) < frames.toList.countP (·.count ≠ 0)) := by
  refine ⟨countP_modify_le (by grind) frames ref, countP_modify_le (by grind) frames ref,
    fun hlast => ?_⟩
  generalize hframe : frames.getD ref ⟨0, true⟩ = frame at hlast
  refine countP_modify_lt (getElem?_of_getD hframe ?_) ?_ ?_
  · rintro rfl
    cases hlast
  · simp [hlast]
  · simp [hlast]

/-- A frame whose bindings are given up. -/
theorem countP_clear {frames : Array FrameHandles} {ref : FrameRef}
    (h : (frames.getD ref ⟨0, true⟩).cleared = false) :
    let after := frames.modify ref fun frame => { frame with cleared := true }
    after.toList.countP (·.count ≠ 0) ≤ frames.toList.countP (·.count ≠ 0) ∧
      after.toList.countP (!·.cleared) < frames.toList.countP (!·.cleared) := by
  refine ⟨countP_modify_le (by grind) frames ref, ?_⟩
  generalize hframe : frames.getD ref ⟨0, true⟩ = frame at h
  refine countP_modify_lt (getElem?_of_getD hframe ?_) ?_ ?_
  · rintro rfl
    cases h
  · simp [h]
  · simp

theorem dropFrame_progresses (handles : Handles) (machine : Machine) (ref : FrameRef) :
    handles.Progresses 1 (handles.dropFrame machine ref) := by
  obtain ⟨hcleared, hle, hlt⟩ := countP_dropFrame handles.frames ref
  unfold dropFrame Progresses live
  by_cases hlast : (handles.frames.getD ref ⟨0, true⟩).count = 1
  · have hends := hlt hlast
    refine .inl ?_
    dsimp only
    omega
  · have hmore : ((handles.frames.getD ref ⟨0, true⟩).count == 1) = false := by simpa using hlast
    refine .inr ⟨?_, ?_⟩
    · dsimp only
      omega
    · simp only [hmore]
      exact Nat.zero_lt_one

theorem closeScope_progresses (handles : Handles) (machine : Machine) (ref : FrameRef) :
    handles.Progresses 2 (handles.closeScope machine ref) := by
  unfold closeScope
  dsimp only
  split
  · next hinternal =>
    -- A frame with bindings has not given them up before.
    have hkept : (handles.frames.getD ref ⟨0, true⟩).cleared = false := by
      rw [← Bool.not_eq_true]
      intro hcleared
      have hnone : handles.bindings machine ref = [] := if_pos hcleared
      rw [hnone] at hinternal
      exact absurd hinternal.1 (Nat.lt_irrefl 0)
    obtain ⟨hle, hlt⟩ := countP_clear hkept
    refine .inl ?_
    unfold live clear
    dsimp only
    omega
  · exact .inr ⟨Nat.le_refl _, Nat.one_lt_two⟩

/-- Every step is the end of an object, or leaves less to be given up. -/
theorem lose_progresses (handles : Handles) (machine : Machine) (loss : Loss) :
    handles.Progresses loss.weight (handles.lose machine loss) := by
  have hnothing : handles.Progresses 1 ([], handles) := .inr ⟨Nat.le_refl _, Nat.zero_lt_one⟩
  cases loss with
  | value value =>
    cases value with
    | list ref => exact handles.dropList_progresses machine ref
    | function closure =>
      obtain ⟨declaration, chain, ref⟩ := closure
      cases ref with
      | none => exact hnothing
      | some ref => exact handles.dropFunction_progresses ref chain
    | _ => exact hnothing
  | scope ref => exact handles.closeScope_progresses machine ref
  | frame ref => exact handles.dropFrame_progresses machine ref

/-- Giving up handles ends, and all fuel that is enough gives the same outcome. -/
theorem giveUp_ends (machine : Machine) (lent : Option FrameRef) (losses : List Loss)
    (handles : Handles) :
    ∃ outcome least, outcome ≠ .outOfFuel ∧
      ∀ fuel ≥ least, giveUp machine lent fuel losses handles = outcome := by
  -- Objects that end come first in the measure, and what is left to be given up comes second.
  induction hmeasure : (handles.live, Loss.total losses) using
    (WellFounded.prod_lex Nat.lt_wfRel.wf Nat.lt_wfRel.wf).induction generalizing losses handles
  next measure ih =>
    subst hmeasure
    cases losses with
    | nil => exact ⟨.done () handles, 0, by simp, fun fuel _ => by cases fuel <;> rfl⟩
    | cons loss rest =>
      by_cases hlooks : loss.looksAt lent
      · refine ⟨.failed () handles, 1, by simp, fun fuel hfuel => ?_⟩
        obtain ⟨fuel, rfl⟩ := Nat.exists_eq_add_of_le' hfuel
        rw [giveUp, if_pos hlooks]
      · generalize hstep : handles.lose machine loss = step
        have hdecreases : Prod.Lex (· < ·) (· < ·) (step.2.live, Loss.total (step.1 ++ rest))
            (handles.live, Loss.total (loss :: rest)) := by
          rcases handles.lose_progresses machine loss with hends | ⟨hlive, htotal⟩
          · exact .left _ _ (hstep ▸ hends)
          · rw [hstep] at hlive htotal
            have htotal : Loss.total (step.1 ++ rest) < Loss.total (loss :: rest) := by
              rw [Loss.total_append, Loss.total]
              omega
            rcases Nat.lt_or_eq_of_le hlive with hlt | heq
            · exact .left _ _ hlt
            · rw [← heq]
              exact .right _ htotal
        obtain ⟨outcome, least, hended, houtcome⟩ :=
          ih _ hdecreases (step.1 ++ rest) step.2 rfl
        refine ⟨outcome, least + 1, hended, fun fuel hfuel => ?_⟩
        obtain ⟨fuel, rfl⟩ := Nat.exists_eq_add_of_le' (Nat.le_trans (Nat.le_add_left 1 _) hfuel)
        rw [giveUp, if_neg hlooks, hstep]
        exact houtcome fuel (by omega)

end Handles

/-! ### Values that lead to a frame -/

/-- The value leads to the frame: it is a function that has kept it, or there is a value that
leads to the frame among the elements of a list, or bound in a frame that a function has
kept. -/
inductive Machine.LeadsTo (machine : Machine) (frame : FrameRef) : Value → Prop
  | kept {closure : Closure} (h : frame ∈ closure.chain) : LeadsTo machine frame (.function closure)
  | bound {closure : Closure} {ref : FrameRef} {value : Value} (h : ref ∈ closure.chain)
      (hbound : value ∈ (machine.environment.frame ref).entries.map Prod.snd)
      (hleads : LeadsTo machine frame value) : LeadsTo machine frame (.function closure)
  | element {ref : ListRef} {item : Value} (h : item ∈ machine.heap.items ref)
      (hleads : LeadsTo machine frame item) : LeadsTo machine frame (.list ref)

/-- What is to be given up leads to the frame. -/
def Loss.LeadsTo (machine : Machine) (frame : FrameRef) : Loss → Prop
  | .value given => machine.LeadsTo frame given
  | .scope ref => ref = frame ∨
    ∃ value ∈ (machine.environment.frame ref).entries.map Prod.snd, machine.LeadsTo frame value
  | .frame ref =>
    ∃ value ∈ (machine.environment.frame ref).entries.map Prod.snd, machine.LeadsTo frame value

namespace Handles

variable {handles : Handles} {machine : Machine} {frame : FrameRef}

theorem mem_bindings {ref : FrameRef} {value : Value} (h : value ∈ handles.bindings machine ref) :
    value ∈ (machine.environment.frame ref).entries.map Prod.snd := by
  unfold bindings at h
  split at h
  · cases h
  · exact h

/-- What is given up because of a loss leads nowhere where the loss does not lead. -/
theorem lose_leadsTo {loss more : Loss} (hmore : more ∈ (handles.lose machine loss).1)
    (h : more.LeadsTo machine frame) : loss.LeadsTo machine frame := by
  cases loss with
  | value value =>
    cases value with
    | list ref =>
      simp only [lose, dropList] at hmore
      split at hmore
      · obtain ⟨item, hitem, rfl⟩ := List.mem_map.1 hmore
        exact Machine.LeadsTo.element (Array.mem_toList_iff.1 hitem) h
      · cases hmore
    | function closure =>
      obtain ⟨declaration, chain, ref⟩ := closure
      cases ref with
      | none => cases hmore
      | some ref =>
        simp only [lose, dropFunction] at hmore
        split at hmore
        · obtain ⟨ref, href, rfl⟩ := List.mem_map.1 hmore
          rcases h with rfl | ⟨value, hvalue, hleads⟩
          · exact Machine.LeadsTo.kept href
          · exact Machine.LeadsTo.bound href hvalue hleads
        · cases hmore
    | _ => cases hmore
  | scope ref =>
    have hframe : ∀ value ∈ handles.bindings machine ref, machine.LeadsTo frame value →
        (Loss.scope ref).LeadsTo machine frame :=
      fun value hvalue hleads => Or.inr ⟨value, mem_bindings hvalue, hleads⟩
    simp only [lose, closeScope] at hmore
    split at hmore
    · rcases List.mem_append.1 hmore with hmore | hmore
      · obtain ⟨value, hvalue, rfl⟩ := List.mem_map.1 hmore
        exact hframe value hvalue h
      · cases List.mem_singleton.1 hmore
        exact Or.inr h
    · cases List.mem_singleton.1 hmore
      exact Or.inr h
  | frame ref =>
    simp only [lose, dropFrame] at hmore
    obtain ⟨value, hvalue, rfl⟩ := List.mem_map.1 hmore
    split at hvalue
    · exact ⟨value, mem_bindings hvalue, h⟩
    · cases hvalue

/-! ### Frames that are lent out -/

theorem giveUp_nil (machine : Machine) (lent : Option FrameRef) (fuel : Nat) (handles : Handles) :
    giveUp machine lent fuel [] handles = .done () handles := by
  cases fuel <;> rfl

/-- Giving up handles fails only if a frame is lent out and one of the losses leads to it. -/
theorem giveUp_meets (machine : Machine) (lent : Option FrameRef) (fuel : Nat)
    (losses : List Loss) (handles : Handles) :
    (giveUp machine lent fuel losses handles).Meets (fun _ _ => True)
      (fun _ _ => ∃ frame, lent = some frame ∧ ∃ loss ∈ losses, loss.LeadsTo machine frame)
      True := by
  induction fuel generalizing losses handles with
  | zero => cases losses <;> trivial
  | succ fuel ih =>
    cases losses with
    | nil => trivial
    | cons loss rest =>
      rw [giveUp]
      split
      · next hlooks =>
        cases loss with
        | scope ref =>
          have hlent : lent = some ref := by simpa [Loss.looksAt] using hlooks
          exact ⟨ref, hlent, .scope ref, List.mem_cons_self, Or.inl rfl⟩
        | _ => cases hlooks
      · refine (ih _ _).imp (fun _ _ => id) (fun _ _ => ?_) id
        rintro ⟨frame, hlent, found, hfound, hleads⟩
        rcases List.mem_append.1 hfound with hmore | hrest
        · exact ⟨frame, hlent, loss, List.mem_cons_self, lose_leadsTo hmore hleads⟩
        · exact ⟨frame, hlent, found, List.mem_cons_of_mem _ hrest, hleads⟩

/-- A frame that is lent out is not given up: giving up handles does not get past it. -/
theorem giveUp_lent {losses : List Loss} (h : .scope frame ∈ losses) (machine : Machine)
    (fuel : Nat) (handles : Handles) :
    (giveUp machine (some frame) fuel losses handles).Meets (fun _ _ => False)
      (fun _ _ => True) True := by
  induction fuel generalizing losses handles with
  | zero =>
    cases losses with
    | nil => cases h
    | cons loss rest => trivial
  | succ fuel ih =>
    cases losses with
    | nil => cases h
    | cons loss rest =>
      rw [giveUp]
      split
      · trivial
      · next hlooks =>
        refine ih (List.mem_append_right _ ?_) _
        rcases List.mem_cons.1 h with rfl | hrest
        · simp [Loss.looksAt] at hlooks
        · exact hrest

/-- Is there only one handle to what the value refers to? -/
def isLast (handles : Handles) : Value → Bool
  | .list ref => handles.lists.getD ref 0 == 1
  | .function ⟨_, _, some ref⟩ => handles.functions.getD ref 0 == 1
  | _ => false

/-- A value to which there is another handle is given up in one step. -/
theorem giveUp_of_not_isLast {value : Value} (h : handles.isLast value = false)
    (machine : Machine) (lent : Option FrameRef) (fuel : Nat) :
    giveUp machine lent (fuel + 1) [.value value] handles =
      .done () (handles.lose machine (.value value)).2 := by
  have hnothing : (handles.lose machine (.value value)).1 = [] := by
    cases value with
    | list ref =>
      have hmore : (handles.lists.getD ref 0 == 1) = false := h
      simp only [lose, dropList, hmore]
      rfl
    | function closure =>
      obtain ⟨declaration, chain, ref⟩ := closure
      cases ref with
      | none => rfl
      | some ref =>
        have hmore : (handles.functions.getD ref 0 == 1) = false := h
        simp only [lose, dropFunction, hmore]
        rfl
    | _ => rfl
  rw [giveUp, if_neg (by simp [Loss.looksAt])]
  dsimp only
  rw [hnothing, List.append_nil]
  exact giveUp_nil machine lent fuel _

/-- A function without another handle is not given up if it has kept a frame that is lent out. -/
theorem giveUp_kept {declaration : Declaration} {chain : Chain} {ref : FunctionRef}
    (hlast : handles.functions.getD ref 0 = 1) (hkept : frame ∈ chain) (machine : Machine)
    (fuel : Nat) :
    (giveUp machine (some frame) fuel [.value (.function ⟨declaration, chain, some ref⟩)]
      handles).Meets (fun _ _ => False) (fun _ _ => True) True := by
  cases fuel with
  | zero => trivial
  | succ fuel =>
    have hframes : (handles.lose machine (.value (.function ⟨declaration, chain, some ref⟩))).1 =
        chain.map .scope := by
      simp [lose, dropFunction, hlast]
    rw [giveUp, if_neg (by simp [Loss.looksAt])]
    dsimp only
    rw [hframes]
    exact giveUp_lent (List.mem_append_left _ (List.mem_map_of_mem hkept)) machine fuel _

end Handles

/-! ### Changes of bindings -/

/-- Does the computation crash? -/
def Outcome.crashes {α : Type} : Outcome Stop Store α → Bool
  | failed .crash _ => true
  | _ => false

theorem Outcome.crashes_iff {α : Type} {outcome : Outcome Stop Store α} :
    outcome.crashes ↔ ∃ after, outcome = .failed .crash after := by
  cases outcome with
  | failed stop after => cases stop <;> simp [crashes]
  | _ => simp [crashes]

/-- What a change of a binding does, in which the value `old` is replaced in the frame `lent`.
It ends. If it returns, the machine is the changed one. If not, it has crashed, and the value
that was replaced leads to the frame. It returns if there is another handle to that value, or
none has been replaced. It crashes if that value is a function without another handle which has
kept the frame. -/
structure Store.Replaces (work : Nat → Work Unit) (store : Store) (lent : Option FrameRef)
    (old : Option Value) (value : Value) (changed : Machine) : Prop where
  ends : ∃ outcome least, outcome ≠ .outOfFuel ∧ ∀ fuel ≥ least, work fuel store = outcome
  returned : ∀ fuel after, work fuel store = .done () after → after.machine = changed
  failed : ∀ fuel stop after, work fuel store = .failed stop after → stop = .crash ∧
    ∃ frame replaced, lent = some frame ∧ old = some replaced ∧ changed.LeadsTo frame replaced
  returns : (∀ replaced ∈ old, (store.handles.keep value).isLast replaced = false) →
    ∀ fuel, ∃ after, work (fuel + 1) store = .done () after
  crashes : ∀ frame declaration chain ref, lent = some frame → frame ∈ chain →
    old = some (.function ⟨declaration, chain, some ref⟩) →
    (store.handles.keep value).functions.getD ref 0 = 1 →
    ∃ least, ∀ fuel ≥ least, ∃ after, work fuel store = .failed .crash after

namespace Store

/-- A change of a binding changes the machine, and then gives up what was replaced. -/
theorem rebind_eq (fuel : Nat) (replaced : Environment → Option FrameRef × Option Value)
    (change : Environment → Environment) (value : Value) (store : Store) :
    rebind fuel replaced change value store =
      giveUp fuel (replaced store.machine.environment).1
        ((replaced store.machine.environment).2.toList.map .value)
        ⟨{ store.machine with environment := change store.machine.environment },
          store.handles.keep value⟩ := rfl

theorem giveUp_eq (fuel : Nat) (lent : Option FrameRef) (losses : List Loss) (store : Store) :
    giveUp fuel lent losses store =
      ((store.handles.giveUp store.machine lent fuel losses).mapState
        (Store.mk store.machine)).mapError fun _ => .crash := by
  unfold giveUp
  dsimp only
  cases store.handles.giveUp store.machine lent fuel losses <;> rfl

/-- What becomes of a change of a binding. -/
theorem rebind_replaces {replaced : Environment → Option FrameRef × Option Value}
    {change : Environment → Environment} {store : Store} {lent : Option FrameRef}
    {old : Option Value} (hold : (replaced store.machine.environment).2 = old)
    (hlent : ∀ found ∈ old, (replaced store.machine.environment).1 = lent) (value : Value) :
    Replaces (fun fuel => rebind fuel replaced change value) store lent old value
      { store.machine with environment := change store.machine.environment } := by
  generalize hchanged : { store.machine with
    environment := change store.machine.environment } = changed
  let given (fuel : Nat) : Outcome Unit Handles Unit :=
    (store.handles.keep value).giveUp changed (replaced store.machine.environment).1 fuel
      (old.toList.map .value)
  have hwork : ∀ fuel, rebind fuel replaced change value store =
      ((given fuel).mapState (Store.mk changed)).mapError fun _ => .crash := by
    intro fuel
    rw [rebind_eq, giveUp_eq, hchanged, hold]
  obtain ⟨outcome, least, hended, houtcome⟩ :
      ∃ outcome least, outcome ≠ .outOfFuel ∧ ∀ fuel ≥ least, given fuel = outcome :=
    Handles.giveUp_ends ..
  refine ⟨⟨(outcome.mapState (Store.mk changed)).mapError fun _ => .crash, least, ?_,
    fun fuel hfuel => by rw [hwork, houtcome fuel hfuel]⟩, fun fuel after hafter => ?_,
    fun fuel stop after hafter => ?_, fun hspared fuel => ?_,
    fun frame declaration chain ref hframe hmem hfunction hlast => ?_⟩
  · cases outcome with
    | outOfFuel => exact absurd rfl hended
    | _ => exact fun h => by cases h
  · rw [hwork] at hafter
    cases hgiven : given fuel <;> rw [hgiven] at hafter <;> cases hafter
    rfl
  · have hmeets : (given fuel).Meets _ _ _ := Handles.giveUp_meets ..
    rw [hwork] at hafter
    cases hgiven : given fuel with
    | failed _ left =>
      rw [hgiven] at hafter hmeets
      cases hafter
      obtain ⟨frame, hframe, loss, hloss, hleads⟩ := hmeets
      obtain ⟨found, hfound, rfl⟩ := List.mem_map.1 hloss
      have hfound := Option.mem_toList.1 hfound
      exact ⟨rfl, frame, found, (hlent found hfound).symm.trans hframe, hfound, hleads⟩
    | _ =>
      rw [hgiven] at hafter
      cases hafter
  · rw [hwork]
    cases old with
    | none =>
      have hgiven : given (fuel + 1) = .done () _ := Handles.giveUp_nil ..
      exact ⟨_, by rw [hgiven]; rfl⟩
    | some found =>
      have hgiven : given (fuel + 1) = .done () _ :=
        Handles.giveUp_of_not_isLast (hspared found rfl) ..
      exact ⟨_, by rw [hgiven]; rfl⟩
  · subst hfunction
    refine ⟨least, fun fuel hfuel => ?_⟩
    have hstuck : (given fuel).Meets (fun _ _ => False) (fun _ _ => True) True := by
      simp only [given, (hlent _ rfl).trans hframe]
      exact Handles.giveUp_kept hlast hmem changed fuel
    rw [hwork]
    rw [houtcome fuel hfuel] at hstuck ⊢
    cases outcome with
    | done _ left => exact hstuck.elim
    | failed _ left => exact ⟨_, rfl⟩
    | outOfFuel => exact absurd rfl hended

end Store

end Betty
