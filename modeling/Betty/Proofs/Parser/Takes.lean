import Betty.Program.Grammar
import Betty.Proofs.Outcome
import Betty.Proofs.Parser.Moves

/-!
# Reading given lexemes

What a step of the parser does when it is known which lexemes are ahead: it takes some of
them, yields a value and records no error. The rules below follow the steps of the
grammar, so the reading of a printed tree is put together from them.

Nothing is said about fuel here: a step that runs out of it is left out of account.

## Main definitions

* `Input.Faces`: these lexemes are ahead, and no error has been recorded.
* `Reading.Takes`: a step takes the lexemes between two rows.
-/

namespace Betty

/-- These are the lexemes ahead, and no error has been recorded. -/
structure Input.Faces (input : Input) (lexemes : List Lexeme) : Prop where
  ahead : input.ahead.map Token.lexeme = lexemes
  errors : input.errors = #[]

namespace Input.Faces

variable {input : Input} {lexemes : List Lexeme} {lexeme : Lexeme}

theorem current (h : input.Faces lexemes) :
    input.current.lexeme = lexemes.headD .endOfInput := by
  rw [← h.ahead]
  unfold Input.current
  cases input.ahead <;> rfl

theorem following (h : input.Faces (lexeme :: lexemes)) :
    input.following = lexemes.headD .endOfInput := by
  obtain ⟨token, rest, hahead, rfl, rfl⟩ := List.map_eq_cons_iff.1 h.ahead
  unfold Input.following
  rw [hahead]
  cases rest <;> rfl

theorem advance (h : input.Faces (lexeme :: lexemes)) : input.advance.Faces lexemes := by
  obtain ⟨token, rest, hahead, rfl, rfl⟩ := List.map_eq_cons_iff.1 h.ahead
  refine ⟨?_, by rw [advance_errors, h.errors]⟩
  rw [advance_ahead, hahead]
  rfl

end Input.Faces

/-- Where the lexemes `before` are ahead, the step leaves the lexemes `after` ahead. It
records no error and does not fail, and what it has `made` holds of its value. -/
def Reading.Takes {α : Type} (before after : List Lexeme) (made : α → Prop) (step : Reading α) :
    Prop :=
  ∀ input : Input, input.Faces before →
    (step input).Meets (fun value final => made value ∧ final.Faces after) (fun _ _ => False) True

namespace Reading.Takes

variable {α β : Type} {before middle after : List Lexeme} {made : α → Prop} {made' : β → Prop}

theorem exhausted : Takes before after made Action.exhausted :=
  fun _ _ => trivial

theorem pure {value : α} (h : made value) : Takes before before made (Pure.pure value) :=
  fun _ hfaces => ⟨h, hfaces⟩

theorem bind {first : Reading α} {second : α → Reading β} (h : first.Takes before middle made)
    (h' : ∀ value, made value → (second value).Takes middle after made') :
    Takes before after made' (first >>= second) := by
  intro input hfaces
  refine (Action.meets_bind _ _ _).2 ((h input hfaces).imp ?_ (fun _ _ => id) id)
  rintro value final ⟨hvalue, hfinal⟩
  exact h' value hvalue final hfinal

/-- A step of whose value nothing need be known. -/
theorem seq {first : Reading α} {second : α → Reading β}
    (h : first.Takes before middle fun _ => True)
    (h' : ∀ value, (second value).Takes middle after made') :
    Takes before after made' (first >>= second) :=
  .bind h fun value _ => h' value

theorem imp {made' : α → Prop} {step : Reading α} (h : step.Takes before after made)
    (himp : ∀ value, made value → made' value) : step.Takes before after made' :=
  fun input hfaces => (h input hfaces).imp (fun value _ hd => ⟨himp value hd.1, hd.2⟩)
    (fun _ _ => id) id

/-- A step that takes what it should needs no handler. -/
theorem recover {step : Reading α} {handler : SyntaxError → Reading α}
    (h : step.Takes before after made) : Takes before after made (Action.recover step handler) :=
  fun input hfaces => (Action.meets_recover _ _ _).2 ((h input hfaces).imp (fun _ _ => id)
    (fun _ _ => False.elim) id)

/-! ### Looking at a token -/

theorem gets (view : Input → α) : Takes before before (fun _ => True) (Action.gets view) :=
  fun _ hfaces => ⟨trivial, hfaces⟩

theorem position : Takes before before (fun _ => True) Reading.position :=
  .gets _

theorem lexeme : Takes before before (· = before.headD .endOfInput) Reading.lexeme :=
  fun _ hfaces => ⟨hfaces.current, hfaces⟩

theorem atSymbol (sign : Symbol) :
    Takes before before (· = (before.headD .endOfInput).isSymbol sign) (Reading.atSymbol sign) :=
  fun _ hfaces => ⟨by rw [← hfaces.current], hfaces⟩

theorem atKeyword (word : Keyword) :
    Takes before before (· = (before.headD .endOfInput).isKeyword word)
      (Reading.atKeyword word) :=
  fun _ hfaces => ⟨by rw [← hfaces.current], hfaces⟩

theorem following {lexeme : Lexeme} {rest : List Lexeme} :
    Takes (lexeme :: rest) (lexeme :: rest) (· = rest.headD .endOfInput)
      (Action.gets Input.following) :=
  fun _ hfaces => ⟨hfaces.following, hfaces⟩

/-- What follows a look at the current token. -/
theorem look {next : Lexeme → Reading α}
    (h : (next (before.headD .endOfInput)).Takes before after made) :
    Takes before after made (Reading.lexeme >>= next) :=
  .bind .lexeme fun _ hvalue => hvalue ▸ h

/-- The alternatives after a look for a sign that is there. -/
theorem ifSymbol {sign : Symbol} {yes no : Reading α} {rest : List Lexeme}
    (h : yes.Takes (.symbol sign :: rest) after made) :
    Takes (.symbol sign :: rest) after made
      (do if ← Reading.atSymbol sign then yes else no) := by
  refine .bind (.atSymbol sign) fun value hvalue => ?_
  rw [if_pos (by simp [hvalue, Lexeme.isSymbol])]
  exact h

/-- The alternatives after a look for a sign that is not there. -/
theorem ifNotSymbol {sign : Symbol} {yes no : Reading α}
    (hnot : (before.headD .endOfInput).isSymbol sign = false) (h : no.Takes before after made) :
    Takes before after made (do if ← Reading.atSymbol sign then yes else no) := by
  refine .bind (.atSymbol sign) fun value hvalue => ?_
  rw [hvalue, hnot, if_neg Bool.false_ne_true]
  exact h

/-- The alternatives after a look for a reserved word that is there. -/
theorem ifKeyword {word : Keyword} {yes no : Reading α} {rest : List Lexeme}
    (h : yes.Takes (.keyword word :: rest) after made) :
    Takes (.keyword word :: rest) after made
      (do if ← Reading.atKeyword word then yes else no) := by
  refine .bind (.atKeyword word) fun value hvalue => ?_
  rw [if_pos (by simp [hvalue, Lexeme.isKeyword])]
  exact h

/-- The alternatives after a look for a reserved word that is not there. -/
theorem ifNotKeyword {word : Keyword} {yes no : Reading α}
    (hnot : (before.headD .endOfInput).isKeyword word = false) (h : no.Takes before after made) :
    Takes before after made (do if ← Reading.atKeyword word then yes else no) := by
  refine .bind (.atKeyword word) fun value hvalue => ?_
  rw [hvalue, hnot, if_neg Bool.false_ne_true]
  exact h

/-! ### Taking a token -/

theorem advance {lexeme : Lexeme} {rest : List Lexeme} :
    Takes (lexeme :: rest) rest (fun _ => True) Reading.advance :=
  fun _ hfaces => ⟨trivial, hfaces.advance⟩

theorem expectSymbol (sign : Symbol) {rest : List Lexeme} :
    Takes (.symbol sign :: rest) rest (fun _ => True) (Reading.expectSymbol sign) :=
  .ifSymbol .advance

theorem expectKeyword (word : Keyword) {rest : List Lexeme} :
    Takes (.keyword word :: rest) rest (fun _ => True) (Reading.expectKeyword word) :=
  .ifKeyword .advance

theorem expectName (role : NameRole) {name : String} {rest : List Lexeme} :
    Takes (.identifier name :: rest) rest (· = name) (Reading.expectName role) :=
  .look (.seq .advance fun _ => .pure rfl)

end Reading.Takes

end Betty
