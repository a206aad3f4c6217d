import Betty.Outcome

/-!
# Specifications of computations

A specification of a computation has three parts: what holds of a value and the state
that it comes with, what holds of an error and its state, and what it means that the
fuel did not last. One rule for each way to build a computation reduces the
specification of the whole to those of its parts.

## Main definitions

* `Outcome.Meets`: an outcome meets a specification.
* `Outcome.mapState`, `Outcome.mapError`: an outcome with the state or the error replaced.
* `Outcome.state?`, `Outcome.error?`: the state that a computation ends in, and its error.
-/

namespace Betty

namespace Outcome

/-- The outcome with the state replaced. -/
def mapState {α ε σ τ : Type} (change : σ → τ) : Outcome ε σ α → Outcome ε τ α
  | done value state => .done value (change state)
  | failed error state => .failed error (change state)
  | outOfFuel => .outOfFuel

/-- The outcome with the error replaced. -/
def mapError {α ε ε' σ : Type} (change : ε → ε') : Outcome ε σ α → Outcome ε' σ α
  | done value state => .done value state
  | failed error state => .failed (change error) state
  | outOfFuel => .outOfFuel

/-- The state that a computation ends in, if it ends. -/
def state? {ε σ α : Type} : Outcome ε σ α → Option σ
  | done _ state | failed _ state => some state
  | outOfFuel => none

/-- The error that a computation ends with, if it does. -/
def error? {ε σ α : Type} : Outcome ε σ α → Option ε
  | failed error _ => some error
  | _ => none

variable {ε σ α : Type}

/-- The outcome meets a specification: `done` of a value and its state, `failed` of an
error and its state, and `cut` if the computation was cut off. -/
def Meets (outcome : Outcome ε σ α) (done : α → σ → Prop) (failed : ε → σ → Prop)
    (cut : Prop) : Prop :=
  match outcome with
  | .done value state => done value state
  | .failed error state => failed error state
  | .outOfFuel => cut

variable {done done' : α → σ → Prop} {failed failed' : ε → σ → Prop} {cut cut' : Prop}

@[simp]
theorem meets_done (value : α) (state : σ) :
    (Outcome.done value state).Meets done failed cut ↔ done value state := Iff.rfl

@[simp]
theorem meets_failed (error : ε) (state : σ) :
    (Outcome.failed error state).Meets done failed cut ↔ failed error state := Iff.rfl

@[simp]
theorem meets_outOfFuel :
    (Outcome.outOfFuel : Outcome ε σ α).Meets done failed cut ↔ cut := Iff.rfl

@[simp]
theorem meets_mapState {τ : Type} {done : α → τ → Prop} {failed : ε → τ → Prop}
    (change : σ → τ) (outcome : Outcome ε σ α) :
    (outcome.mapState change).Meets done failed cut ↔
      outcome.Meets (fun value state => done value (change state))
        (fun error state => failed error (change state)) cut := by
  cases outcome <;> rfl

@[simp]
theorem meets_mapError {ε' : Type} {failed : ε' → σ → Prop} (change : ε → ε')
    (outcome : Outcome ε σ α) :
    (outcome.mapError change).Meets done failed cut ↔
      outcome.Meets done (fun error state => failed (change error) state) cut := by
  cases outcome <;> rfl

@[simp]
theorem state?_mapState {τ : Type} (change : σ → τ) (outcome : Outcome ε σ α) :
    (outcome.mapState change).state? = outcome.state?.map change := by
  cases outcome <;> rfl

@[simp]
theorem state?_mapError {ε' : Type} (change : ε → ε') (outcome : Outcome ε σ α) :
    (outcome.mapError change).state? = outcome.state? := by
  cases outcome <;> rfl

@[simp]
theorem error?_mapState {τ : Type} (change : σ → τ) (outcome : Outcome ε σ α) :
    (outcome.mapState change).error? = outcome.error? := by
  cases outcome <;> rfl

theorem mapError_id (outcome : Outcome ε σ α) : outcome.mapError id = outcome := by
  cases outcome <;> rfl

/-- The rule of consequence. -/
theorem Meets.imp {outcome : Outcome ε σ α} (h : outcome.Meets done failed cut)
    (hdone : ∀ value state, done value state → done' value state)
    (hfailed : ∀ error state, failed error state → failed' error state)
    (hcut : cut → cut') : outcome.Meets done' failed' cut' := by
  cases outcome with
  | done value state => exact hdone value state h
  | failed error state => exact hfailed error state h
  | outOfFuel => exact hcut h

/-- An outcome that meets two specifications meets both at once. -/
theorem Meets.and {outcome : Outcome ε σ α} (h : outcome.Meets done failed cut)
    (h' : outcome.Meets done' failed' cut') :
    outcome.Meets (fun value state => done value state ∧ done' value state)
      (fun error state => failed error state ∧ failed' error state) (cut ∧ cut') := by
  cases outcome with
  | done value state => exact ⟨h, h'⟩
  | failed error state => exact ⟨h, h'⟩
  | outOfFuel => exact ⟨h, h'⟩

/-- What holds in every case holds of every outcome. -/
theorem Meets.of_forall (outcome : Outcome ε σ α) (hdone : ∀ value state, done value state)
    (hfailed : ∀ error state, failed error state) (hcut : cut) :
    outcome.Meets done failed cut := by
  cases outcome with
  | done value state => exact hdone value state
  | failed error state => exact hfailed error state
  | outOfFuel => exact hcut

/-- What holds however the computation ends holds of the state that it ends in. -/
theorem Meets.state? {outcome : Outcome ε σ α} {holds : σ → Prop}
    (h : outcome.Meets (fun _ state => holds state) (fun _ state => holds state) True) {state : σ}
    (hstate : outcome.state? = some state) : holds state := by
  cases outcome with
  | done value after =>
    cases hstate
    exact h
  | failed error after =>
    cases hstate
    exact h
  | outOfFuel => cases hstate

end Outcome

namespace Action

variable {ε σ α β : Type} {done : α → σ → Prop} {failed : ε → σ → Prop} {cut : Prop}

/-- Computations compose as the laws of monads say. -/
instance : LawfulMonad (Action ε σ) :=
  LawfulMonad.mk' (Action ε σ)
    (fun first => by
      funext state
      change Action.bind first _ state = first state
      unfold Action.bind
      cases first state <;> rfl)
    (fun _ _ => rfl)
    (fun first second third => by
      funext state
      change Action.bind (Action.bind first second) third state =
        Action.bind first (fun value => Action.bind (second value) third) state
      simp only [Action.bind]
      cases first state <;> rfl)

@[simp]
theorem meets_pure (value : α) (state : σ) :
    ((pure value : Action ε σ α) state).Meets done failed cut ↔ done value state := Iff.rfl

@[simp]
theorem meets_fail (error : ε) (state : σ) :
    ((fail error : Action ε σ α) state).Meets done failed cut ↔ failed error state := Iff.rfl

@[simp]
theorem meets_exhausted (state : σ) :
    ((exhausted : Action ε σ α) state).Meets done failed cut ↔ cut := Iff.rfl

@[simp]
theorem meets_gets (view : σ → α) (state : σ) :
    ((gets view : Action ε σ α) state).Meets done failed cut ↔ done (view state) state := Iff.rfl

@[simp]
theorem meets_update {done : Unit → σ → Prop} (change : σ → σ) (state : σ) :
    ((update change : Action ε σ Unit) state).Meets done failed cut ↔
      done () (change state) := Iff.rfl

/-- One computation after another: the first one must end in a state from which the
second one meets the specification. -/
@[simp]
theorem meets_bind {done : β → σ → Prop} (first : Action ε σ α) (second : α → Action ε σ β)
    (state : σ) :
    ((first >>= second) state).Meets done failed cut ↔
      (first state).Meets (fun value after => (second value after).Meets done failed cut)
        failed cut := by
  change (match first state with
    | .done value after => second value after
    | .failed error after => .failed error after
    | .outOfFuel => .outOfFuel).Meets done failed cut ↔ _
  cases first state <;> rfl

/-- A handler must meet the specification from every state that an error leaves. -/
@[simp]
theorem meets_recover (first : Action ε σ α) (handler : ε → Action ε σ α) (state : σ) :
    ((recover first handler) state).Meets done failed cut ↔
      (first state).Meets done
        (fun error after => (handler error after).Meets done failed cut) cut := by
  unfold recover
  cases first state <;> rfl

end Action

end Betty
