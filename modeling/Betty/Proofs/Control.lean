import Betty.Control

/-!
# What statements do to the control context

A statement that starts in a normal flow leaves the depths as they were, and sets the value
to return only if it returns. What looks at the flow afterwards, at the end of an iteration
or of a switch, changes nothing else.

## Main definitions

* `Control.Settled`: how a statement leaves the control context.
* `Control.Undisturbed`: how a statement leaves it that fails.
* `Control.Passes`: what the end of an iteration or of a switch does.
-/

namespace Betty.Control

/-- Two control contexts with the same depths. -/
structure SameDepths (before after : Control) : Prop where
  loopDepth : after.loopDepth = before.loopDepth
  switchDepth : after.switchDepth = before.switchDepth

/-- The same depths. Only a machine that is returning may have another value to return. -/
structure Settled (before after : Control) : Prop extends before.SameDepths after where
  returned : after.flow ≠ .returning → after.returned = before.returned

/-- The same depths, a normal flow, and no other value to return. -/
structure Undisturbed (before after : Control) : Prop extends before.SameDepths after where
  flow : after.flow = .normal
  returned : after.returned = before.returned

/-- The same depths and the same value to return. A return that was going on still is. -/
structure Passes (before after : Control) : Prop extends before.SameDepths after where
  returned : after.returned = before.returned
  returning : before.flow = .returning → after.flow = .returning

variable {first second third : Control}

theorem SameDepths.trans (h : first.SameDepths second) (h' : second.SameDepths third) :
    first.SameDepths third :=
  ⟨h'.loopDepth.trans h.loopDepth, h'.switchDepth.trans h.switchDepth⟩

theorem Undisturbed.refl (h : first.flow = .normal) : first.Undisturbed first :=
  ⟨⟨rfl, rfl⟩, h, rfl⟩

theorem Undisturbed.settled (h : first.Undisturbed second) : first.Settled second :=
  ⟨h.toSameDepths, fun _ => h.returned⟩

theorem Settled.undisturbed (h : first.Settled second) (hflow : second.flow = .normal) :
    first.Undisturbed second :=
  ⟨h.toSameDepths, hflow, h.returned (by simp [hflow])⟩

theorem Undisturbed.trans (h : first.Undisturbed second) (h' : second.Undisturbed third) :
    first.Undisturbed third :=
  ⟨h.toSameDepths.trans h'.toSameDepths, h'.flow, h'.returned.trans h.returned⟩

theorem Undisturbed.trans_settled (h : first.Undisturbed second) (h' : second.Settled third) :
    first.Settled third :=
  ⟨h.toSameDepths.trans h'.toSameDepths, fun hflow => (h'.returned hflow).trans h.returned⟩

theorem Settled.passes (h : first.Settled second) (h' : second.Passes third) :
    first.Settled third :=
  ⟨h.toSameDepths.trans h'.toSameDepths,
    fun hne => h'.returned.trans (h.returned fun hr => hne (h'.returning hr))⟩

theorem Passes.refl (control : Control) : control.Passes control :=
  ⟨⟨rfl, rfl⟩, rfl, id⟩

theorem passes_endIteration (control : Control) : control.Passes control.endIteration := by
  cases hflow : control.flow <;>
    exact ⟨⟨by simp [endIteration, hflow, setFlow], by simp [endIteration, hflow, setFlow]⟩,
      by simp [endIteration, hflow, setFlow], by simp [endIteration, hflow]⟩

theorem passes_endSwitch (control : Control) : control.Passes control.endSwitch := by
  unfold endSwitch
  split
  · next hflow => exact ⟨⟨rfl, rfl⟩, rfl, by simp [hflow]⟩
  · exact .refl control

/-- A loop that does not stop goes on normally. -/
theorem endIteration_normal {control : Control} (h : control.stopsLoop = false) :
    control.endIteration.flow = .normal := by
  cases hflow : control.flow <;> simp_all [stopsLoop, endIteration, setFlow]

/-- A jump sets the flow and nothing else. -/
theorem settled_setFlow (control : Control) (flow : Flow) :
    control.Settled (control.setFlow flow) :=
  ⟨⟨rfl, rfl⟩, fun _ => rfl⟩

theorem settled_setReturn (control : Control) (value : Value) :
    control.Settled (control.setReturn value) :=
  ⟨⟨rfl, rfl⟩, fun hne => absurd rfl hne⟩

/-! ### Loops and switches -/

/-- A change of the depths and the change back: the flow and the value to return stay, and the
depths are the earlier ones afterwards. -/
structure Bracket (enter exit : Control → Control) : Prop where
  enter_flow : ∀ control, (enter control).flow = control.flow
  enter_returned : ∀ control, (enter control).returned = control.returned
  exit_flow : ∀ control, (exit control).flow = control.flow
  exit_returned : ∀ control, (exit control).returned = control.returned
  back : ∀ before after, (enter before).SameDepths after → before.SameDepths (exit after)

variable {enter exit : Control → Control}

theorem Bracket.settled (h : Bracket enter exit) (hinside : (enter first).Settled second) :
    first.Settled (exit second) := by
  refine ⟨h.back first second hinside.toSameDepths, fun hne => ?_⟩
  -- The changes leave the flow alone, so only a `return` inside changes what is returned.
  have hreturned := hinside.returned fun hr => hne ((h.exit_flow second).trans hr)
  exact (h.exit_returned second).trans (hreturned.trans (h.enter_returned first))

theorem Bracket.undisturbed (h : Bracket enter exit) (hinside : (enter first).Undisturbed second) :
    first.Undisturbed (exit second) :=
  ⟨h.back first second hinside.toSameDepths, (h.exit_flow second).trans hinside.flow,
    (h.exit_returned second).trans (hinside.returned.trans (h.enter_returned first))⟩

theorem bracket_loop : Bracket enterLoop exitLoop where
  enter_flow _ := rfl
  enter_returned _ := rfl
  exit_flow _ := rfl
  exit_returned _ := rfl
  back before after h := ⟨by simp [exitLoop, h.loopDepth, enterLoop], h.switchDepth⟩

theorem bracket_switch : Bracket enterSwitch exitSwitch where
  enter_flow _ := rfl
  enter_returned _ := rfl
  exit_flow _ := rfl
  exit_returned _ := rfl
  back before after h := ⟨h.loopDepth, by simp [exitSwitch, h.switchDepth, enterSwitch]⟩

end Betty.Control
