/-!
# Stateful computations that may fail or run out of fuel

The parser and the evaluator both thread a state, may stop with an error, and are
bounded by a number of steps, so that they are total. An error keeps the state it
occurred in: whatever happened before it stays visible.

## Main definitions

* `Outcome`: how a computation ends.
* `Action`: a computation, as a function from the state it starts in.
-/

namespace Betty

/-- How a computation with errors `ε` and states `σ` ends. -/
inductive Outcome (ε σ α : Type) where
  /-- It finished with a value. -/
  | done (value : α) (state : σ)
  /-- It stopped with an error. -/
  | failed (error : ε) (state : σ)
  /-- It was cut off before it could end. -/
  | outOfFuel

/-- A computation on states `σ` that yields an `α`, fails with an `ε`, or runs out of
fuel. -/
def Action (ε σ α : Type) : Type :=
  σ → Outcome ε σ α

namespace Action

variable {ε σ α β : Type}

/-- The computation that does nothing but yield a value. -/
@[always_inline, inline]
protected def pure (value : α) : Action ε σ α :=
  fun state => .done value state

/-- One computation after another; an error or the lack of fuel skips the second. -/
@[always_inline, inline]
protected def bind (first : Action ε σ α) (second : α → Action ε σ β) : Action ε σ β :=
  fun state =>
    match first state with
    | .done value state => second value state
    | .failed error state => .failed error state
    | .outOfFuel => .outOfFuel

@[always_inline]
instance : Monad (Action ε σ) where
  pure := Action.pure
  bind := Action.bind

/-- Stops with an error. -/
@[always_inline, inline]
def fail (error : ε) : Action ε σ α :=
  fun state => .failed error state

/-- The computation that has no fuel left. -/
@[always_inline, inline]
def exhausted : Action ε σ α :=
  fun _ => .outOfFuel

/-- A value computed from the state. -/
@[always_inline, inline]
def gets (view : σ → α) : Action ε σ α :=
  fun state => .done (view state) state

/-- A change of the state. -/
@[always_inline, inline]
def update (change : σ → σ) : Action ε σ Unit :=
  fun state => .done () (change state)

/-- Turns the error of a computation into another computation, which starts in the
state that the error left. -/
@[always_inline, inline]
def recover (first : Action ε σ α) (handler : ε → Action ε σ α) : Action ε σ α :=
  fun state =>
    match first state with
    | .failed error state => handler error state
    | ended => ended

end Action

end Betty
