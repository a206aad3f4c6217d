import Betty.Proofs.Control
import Betty.Proofs.Machine.Record

/-!
# Depths and places

The machine counts the loops and switches around the current statement. At a place in the body
of a function it fits if these are the loops and switches of the text there. Whether a jump
has a goal is then the same by the count and by the text.

## Main definitions

* `Place.Fits`, `Event.Lexical`: the depths of the machine are those of the text.
* `Event.stray?`: the word of a jump that has no goal in the text.
-/

namespace Betty

/-- The word of a jump that had no goal. -/
def Fault.jump? : Fault → Option Keyword
  | strayJump word => some word
  | _ => none

/-- The word of the jump without a goal that a computation has failed with. -/
def Outcome.jump? {α : Type} : Outcome RuntimeError Machine α → Option Keyword
  | failed error _ => error.fault.jump?
  | _ => none

/-- The machine goes on normally, and its depths are the numbers of loops and switches
around the place. -/
structure Place.Fits (place : Place) (machine : Machine) : Prop where
  flow : machine.control.flow = .normal
  loopDepth : machine.control.loopDepth = place.loops
  switchDepth : machine.control.switchDepth = place.switches

/-- The statement stands where it has been noted, and the depths of the machine are those
of that place. -/
structure Event.Lexical (event : Event) : Prop where
  holds : event.place.Holds event.statement
  fits : event.place.Fits event.machine

/-- The word of a jump that has no goal in the body of its function: a `break` with no loop
and no switch around it, or a `continue` with no loop around it. -/
def Event.stray? (event : Event) : Option Keyword :=
  match event.statement with
  | .breakStmt _ =>
    if event.place.around.any fun outer => outer.isLoop || outer.isSwitch then none
    else some .breakWord
  | .continueStmt _ =>
    if event.place.around.any Stmt.isLoop then none else some .continueWord
  | _ => none

/-- Is the statement a jump that needs a goal? -/
def Stmt.isJump : Stmt → Bool
  | breakStmt _ | continueStmt _ => true
  | _ => false

theorem Event.stray?_eq_none {event : Event} (h : event.statement.isJump = false) :
    event.stray? = none := by
  unfold stray?
  split
  · next hstatement =>
    rw [hstatement] at h
    cases h
  · next hstatement =>
    rw [hstatement] at h
    cases h
  · rfl

namespace Place

@[simp]
theorem loops_within (place : Place) (statement : Stmt) :
    (place.within statement).loops = place.loops + if statement.isLoop then 1 else 0 :=
  List.countP_cons

@[simp]
theorem switches_within (place : Place) (statement : Stmt) :
    (place.within statement).switches = place.switches + if statement.isSwitch then 1 else 0 :=
  List.countP_cons

theorem any_isLoop (place : Place) : place.around.any Stmt.isLoop = decide (0 < place.loops) := by
  rw [Bool.eq_iff_iff, List.any_eq_true, decide_eq_true_eq, loops, List.countP_pos_iff]

theorem any_isSwitch (place : Place) :
    place.around.any Stmt.isSwitch = decide (0 < place.switches) := by
  rw [Bool.eq_iff_iff, List.any_eq_true, decide_eq_true_eq, switches, List.countP_pos_iff]

namespace Fits

variable {place : Place} {machine after : Machine}

/-- Where a machine fits, its answer whether one can break is that of the text. -/
theorem canBreak (h : place.Fits machine) : machine.control.canBreak =
    place.around.any fun outer => outer.isLoop || outer.isSwitch := by
  have hany : (place.around.any fun outer => outer.isLoop || outer.isSwitch) =
      (place.around.any Stmt.isLoop || place.around.any Stmt.isSwitch) := by
    rw [Bool.eq_iff_iff]
    simp only [List.any_eq_true, Bool.or_eq_true]
    constructor
    · rintro ⟨outer, hmem, hloop | hswitch⟩
      · exact .inl ⟨outer, hmem, hloop⟩
      · exact .inr ⟨outer, hmem, hswitch⟩
    · rintro (⟨outer, hmem, hloop⟩ | ⟨outer, hmem, hswitch⟩)
      · exact ⟨outer, hmem, .inl hloop⟩
      · exact ⟨outer, hmem, .inr hswitch⟩
  rw [hany, any_isLoop, any_isSwitch, Control.canBreak, h.loopDepth, h.switchDepth]

theorem canContinue (h : place.Fits machine) :
    machine.control.canContinue = place.around.any Stmt.isLoop := by
  rw [any_isLoop, Control.canContinue, h.loopDepth]

theorem of_control_eq (h : place.Fits machine) (heq : after.control = machine.control) :
    place.Fits after := by
  refine ⟨?_, ?_, ?_⟩ <;> rw [heq]
  · exact h.flow
  · exact h.loopDepth
  · exact h.switchDepth

theorem settled (h : place.Fits machine) (hs : machine.control.SameDepths after.control)
    (hflow : after.control.flow = .normal) : place.Fits after :=
  ⟨hflow, hs.loopDepth.trans h.loopDepth, hs.switchDepth.trans h.switchDepth⟩

/-- The place of a body fits the initial context. -/
theorem initial (function : Declaration) (h : machine.control = .initial) :
    (start function).Fits machine := by
  refine ⟨?_, ?_, ?_⟩ <;> rw [h] <;> rfl

/-- A statement that is neither a loop nor a switch leaves the depths alone. -/
theorem inside (h : place.Fits machine) {statement : Stmt} (hloop : statement.isLoop = false)
    (hswitch : statement.isSwitch = false) : (place.within statement).Fits machine where
  flow := h.flow
  loopDepth := by simpa [hloop] using h.loopDepth
  switchDepth := by simpa [hswitch] using h.switchDepth

theorem enterLoop (h : place.Fits machine) {statement : Stmt} (hloop : statement.isLoop) :
    (place.within statement).Fits (machine.turn Control.enterLoop) := by
  have hswitch : statement.isSwitch = false := by
    cases statement <;> first | rfl | cases hloop
  exact ⟨h.flow, by simpa [hloop, Machine.turn, Control.enterLoop] using h.loopDepth,
    by simpa [hswitch, Machine.turn, Control.enterLoop] using h.switchDepth⟩

theorem enterSwitch (h : place.Fits machine) {statement : Stmt} (hswitch : statement.isSwitch) :
    (place.within statement).Fits (machine.turn Control.enterSwitch) := by
  have hloop : statement.isLoop = false := by
    cases statement <;> first | rfl | cases hswitch
  exact ⟨h.flow, by simpa [hloop, Machine.turn, Control.enterSwitch] using h.loopDepth,
    by simpa [hswitch, Machine.turn, Control.enterSwitch] using h.switchDepth⟩

end Fits

end Place

end Betty
