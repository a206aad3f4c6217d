import Betty.Proofs.Parser.Runs
import Betty.Proofs.Parser.Takes

/-!
# The grammar looks one token ahead

What a rule does depends on the tokens up to the one it stops before. So what is known of a
row of tokens in one place holds wherever the row stands in a text, as long as the rule stops
within the row, and with any more fuel.

## Main definitions

* `Reading.Local`: two steps do the same in any two places.
-/

namespace Betty

namespace Reading

variable {α : Type}

/-- Within the second surroundings, the second step does what the first one does within the
first ones, unless that has come to where other tokens follow. -/
def Agrees (around around' : Surroundings) (own : Input) (step step' : Reading α) : Prop :=
  (step (own.within around)).Meets
    (fun value after => (own.within around).Onward after ∧
      (around.Inside around' after → ∃ left : Input, after = left.within around ∧
        step' (own.within around') = .done value (left.within around')))
    (fun error after => (own.within around).Onward after ∧
      (around.Inside around' after → ∃ left : Input, after = left.within around ∧
        step' (own.within around') = .failed error (left.within around')))
    True

/-- Within any surroundings, the second step does what the first one does within any
others. -/
def Local (step step' : Reading α) : Prop :=
  ∀ around around' own, step.Agrees around around' own step'

namespace Local

/-- Steps that keep what is akin are local, since tokens are akin to themselves in another
place. -/
theorem of_keeps {alike : Kinship → α → α → Prop} {step step' : Reading α}
    (h : ∀ kin : Kinship, kin.Keeps (alike kin) step step') : Local step step' := by
  intro around around' own
  have hkeeps := h (.moved around around')
  have hagrees := hkeeps.agrees (.refl trivial own)
  unfold Kinship.Agrees at hagrees
  refine ((hkeeps.onward trivial (own.within around)).and hagrees).imp ?_ ?_ fun _ => trivial
  · rintro value after ⟨honward, hsame⟩
    refine ⟨honward, fun hinside => ?_⟩
    obtain ⟨value', left, left', hleft, hvalue, hinputs, hdone⟩ := hsame hinside
    rw [← hvalue.eq trivial, ← hinputs.eq trivial] at hdone
    exact ⟨left, hleft, hdone⟩
  · rintro error after ⟨honward, hsame⟩
    refine ⟨honward, fun hinside => ?_⟩
    obtain ⟨error', left, left', hleft, herror, hinputs, hfailed⟩ := hsame hinside
    rw [← herror.eq trivial, ← hinputs.eq trivial] at hfailed
    exact ⟨left, hleft, hfailed⟩

theorem onward {step step' : Reading α} (h : Local step step') : step.Onward := by
  intro input
  have hagrees := h .nothing .nothing input
  unfold Agrees at hagrees
  rw [Input.within_nothing] at hagrees
  exact hagrees.imp (fun _ _ => And.left) (fun _ _ => And.left) id

/-- What a step does does not change when the second one takes its place. -/
theorem same {step step' : Reading α} (h : Local step step') (input : Input) :
    (step input).Meets (fun value after => step' input = .done value after)
      (fun error after => step' input = .failed error after) True := by
  have hagrees := h .nothing .nothing input
  unfold Agrees at hagrees
  simp only [Input.within_nothing] at hagrees
  refine hagrees.imp ?_ ?_ id
  · rintro value after ⟨_, hsame⟩
    obtain ⟨left, rfl, hdone⟩ := hsame (.inl ⟨rfl, rfl⟩)
    exact hdone
  · rintro error after ⟨_, hsame⟩
    obtain ⟨left, rfl, hfailed⟩ := hsame (.inl ⟨rfl, rfl⟩)
    exact hfailed

theorem source : Local (Action.gets Input.source) (Action.gets Input.source) :=
  .of_keeps fun _ => .source

theorem lexeme : Local Reading.lexeme Reading.lexeme :=
  .of_keeps fun _ => .lexeme

theorem position : Local Reading.position Reading.position :=
  .of_keeps fun _ => .position

theorem atSymbol (sign : Symbol) : Local (Reading.atSymbol sign) (Reading.atSymbol sign) :=
  .of_keeps fun _ => .atSymbol sign

theorem atKeyword (word : Keyword) : Local (Reading.atKeyword word) (Reading.atKeyword word) :=
  .of_keeps fun _ => .atKeyword word

theorem advance : Local Reading.advance Reading.advance :=
  .of_keeps fun _ => .advance

theorem reject (fault : Lexeme → SyntaxFault) :
    Local (Reading.reject fault : Reading α) (Reading.reject fault) := by
  have hkeeps : ∀ kin : Kinship, kin.Keeps (· = ·) (Reading.reject fault : Reading α)
      (Reading.reject fault) := fun _ => .reject fault
  exact .of_keeps hkeeps

theorem expectSymbol (sign : Symbol) :
    Local (Reading.expectSymbol sign) (Reading.expectSymbol sign) :=
  .of_keeps fun _ => .expectSymbol sign

theorem expectKeyword (word : Keyword) :
    Local (Reading.expectKeyword word) (Reading.expectKeyword word) :=
  .of_keeps fun _ => .expectKeyword word

theorem expectName (role : NameRole) :
    Local (Reading.expectName role) (Reading.expectName role) :=
  .of_keeps fun _ => .expectName role

end Local

end Reading

/-! ### Rules -/

namespace Grammar

open Reading

section

variable {fuel fuel' : Nat} (h : fuel ≤ fuel')

include h

theorem parameters_local : Local (parameters fuel) (parameters fuel') :=
  .of_keeps fun _ => parameters_keeps h

theorem expression_local (least : Nat) : Local (expression fuel least) (expression fuel' least) :=
  .of_keeps fun kin => (keeping kin h).expression least

theorem statements_local (ends : Lexeme → Bool) :
    Local (statements fuel ends) (statements fuel' ends) :=
  .of_keeps fun kin => (keeping kin h).statements ends

theorem recovered_local : Local (recovered fuel) (recovered fuel') :=
  .of_keeps fun kin => (keeping kin h).recovered

theorem statement_local : Local (statement fuel) (statement fuel') :=
  .of_keeps fun kin => (keeping kin h).statement

theorem definition_local : Local (definition fuel) (definition fuel') :=
  .of_keeps fun kin => (keeping kin h).definition

theorem condition_local : Local (condition fuel) (condition fuel') :=
  .of_keeps fun kin => (keeping kin h).condition

theorem optional_local (sign : Symbol) : Local (optional fuel sign) (optional fuel' sign) :=
  .of_keeps fun kin => (keeping kin h).optional sign

theorem clauses_local : Local (clauses fuel) (clauses fuel') :=
  .of_keeps fun kin => (keeping kin h).clauses

theorem cases_local (closed : Bool) : Local (cases fuel closed) (cases fuel' closed) :=
  .of_keeps fun kin => (keeping kin h).cases closed

end

end Grammar

/-! ### Steps that take given lexemes -/

/-- A local step takes what it takes whatever errors have been recorded before. -/
theorem Reading.Takes.anywhere {α : Type} {before after : List Lexeme} {made : α → Prop}
    {step : Reading α} (h : step.Takes before after made) (hlocal : Local step step)
    (input : Input) (hahead : input.lexemes = before) :
    (step input).Meets
      (fun value final => made value ∧ final.lexemes = after ∧ final.errors = input.errors)
      (fun _ _ => False) True := by
  -- Without the errors recorded before, the step takes what it should.
  let clean : Input := { input with errors := #[] }
  let around : Surroundings := ⟨[], input.errors, 0⟩
  have hinput : clean.within around = input := by
    simp [clean, around, Input.within]
  have htakes := h clean ⟨hahead, rfl⟩
  have hagrees := hlocal around .nothing clean
  unfold Agrees at hagrees
  rw [hinput, Input.within_nothing] at hagrees
  refine hagrees.imp ?_ ?_ id
  · rintro value final ⟨_, hsame⟩
    obtain ⟨left, rfl, hdone⟩ := hsame (.inl ⟨rfl, rfl⟩)
    rw [hdone, Input.within_nothing] at htakes
    obtain ⟨hmade, hahead, herrors⟩ := htakes
    exact ⟨hmade, by simpa [Input.lexemes, Input.within, around] using hahead,
      by simp [Input.within, around, herrors]⟩
  · rintro error final ⟨_, hsame⟩
    obtain ⟨left, rfl, hfailed⟩ := hsame (.inl ⟨rfl, rfl⟩)
    rw [hfailed] at htakes
    exact htakes

/-- What follows a local step that takes given lexemes. -/
theorem Reading.Takes.andThen {α β : Type} {before middle : List Lexeme} {made : α → Prop}
    {first : Reading α} {second : α → Reading β} {done : β → Input → Prop}
    {failed : SyntaxError → Input → Prop} (h : first.Takes before middle made)
    (hlocal : Local first first) {input : Input} (hahead : input.lexemes = before)
    (hnext : ∀ value after, made value → after.lexemes = middle → after.errors = input.errors →
      (second value after).Meets done failed True) :
    ((first >>= second) input).Meets done failed True := by
  rw [Action.meets_bind]
  refine (h.anywhere hlocal input hahead).imp ?_ (fun _ _ => False.elim) id
  rintro value after ⟨hmade, hafter, herrors⟩
  exact hnext value after hmade hafter herrors

end Betty
