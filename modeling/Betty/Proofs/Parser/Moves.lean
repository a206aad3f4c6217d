import Betty.Program.Input
import Mathlib.Logic.Relation

/-!
# Moves of the parser

Whatever the grammar does to its input is a row of two kinds of moves: it takes the
current token, or it records an error at the current token. A malformed token is only
taken once an error has been recorded. What all rules of the grammar keep follows from
what the two moves keep.

## Main definitions

* `Input.lexemes`: what is ahead, without the positions.
* `Input.Move`, `Input.Leads`: one move, and any number of moves.
-/

namespace Betty

namespace Lexeme

theorem isSymbol_iff {lexeme : Lexeme} {sign : Symbol} :
    lexeme.isSymbol sign ↔ lexeme = .symbol sign := by
  cases lexeme <;> simp [isSymbol]

theorem isKeyword_iff {lexeme : Lexeme} {word : Keyword} :
    lexeme.isKeyword word ↔ lexeme = .keyword word := by
  cases lexeme <;> simp [isKeyword]

/-- Is this a lexeme that a rule can take without further ado: neither malformed text nor
the end of the text? -/
def isPlain : Lexeme → Bool
  | endOfInput | error _ => false
  | _ => true

end Lexeme

namespace Input

/-! ### Taking a token -/

theorem current_of_ahead {input : Input} {token : Token} {rest : List Token}
    (h : input.ahead = token :: rest) : input.current = token := by
  simp [current, h]

theorem current_of_nil {input : Input} (h : input.ahead = []) :
    input.current = ⟨.endOfInput, input.finish⟩ := by
  simp [current, h]

/-- The current token is there to be taken, unless it is the one that marks the end. -/
theorem ahead_ne_nil {input : Input} (h : input.current.lexeme ≠ .endOfInput) :
    input.ahead ≠ [] := by
  intro hnil
  rw [current_of_nil hnil] at h
  exact h rfl

theorem advance_of_nil {input : Input} (h : input.ahead = []) : input.advance = input := by
  simp [advance, h]

theorem advance_ahead (input : Input) : input.advance.ahead = input.ahead.tail := by
  unfold advance
  split <;> simp_all

@[simp]
theorem advance_errors (input : Input) : input.advance.errors = input.errors := by
  unfold advance
  split <;> rfl

/-- A token that is taken is counted, so the number of tokens taken and ahead stays. -/
theorem advance_taken (input : Input) :
    input.advance.taken + input.advance.ahead.length = input.taken + input.ahead.length := by
  unfold advance
  split
  · rfl
  · next h =>
    rw [h]
    simp only [List.length_cons]
    omega

theorem advance_length {input : Input} (h : input.ahead ≠ []) :
    input.advance.ahead.length + 1 = input.ahead.length := by
  rw [advance_ahead, List.length_tail]
  have := List.length_pos_iff.2 h
  omega

@[simp]
theorem report_ahead (input : Input) (error : SyntaxError) :
    (input.report error).ahead = input.ahead := rfl

@[simp]
theorem report_taken (input : Input) (error : SyntaxError) :
    (input.report error).taken = input.taken := rfl

@[simp]
theorem report_current (input : Input) (error : SyntaxError) :
    (input.report error).current = input.current := rfl

theorem report_errors_ne (input : Input) (error : SyntaxError) :
    (input.report error).errors ≠ #[] := by
  simp [report]

/-! ### The lexemes ahead -/

/-- The lexemes of the tokens ahead. -/
def lexemes (input : Input) : List Lexeme :=
  input.ahead.map Token.lexeme

theorem current_lexeme (input : Input) :
    input.current.lexeme = input.lexemes.headD .endOfInput := by
  unfold current lexemes
  cases input.ahead <;> rfl

/-- Nothing is ahead, or the current token and what is left when it is taken. -/
theorem lexemes_cases (input : Input) :
    (input.ahead = [] ∧ input.lexemes = []) ∨
      input.lexemes = input.current.lexeme :: input.advance.lexemes := by
  unfold lexemes current
  rw [advance_ahead]
  cases input.ahead with
  | nil => exact .inl ⟨rfl, rfl⟩
  | cons token rest => exact .inr rfl

/-- The first lexeme is the current one, and the others are left when it is taken. -/
theorem lexemes_cons {input : Input} {found : Lexeme} {rest : List Lexeme}
    (h : input.lexemes = found :: rest) :
    input.current.lexeme = found ∧ input.advance.lexemes = rest ∧ input.ahead ≠ [] := by
  obtain ⟨_, hnil⟩ | hcons := input.lexemes_cases
  · rw [hnil] at h
    cases h
  · rw [hcons] at h
    cases h
    refine ⟨rfl, rfl, fun hnil => ?_⟩
    rw [lexemes, hnil] at hcons
    cases hcons

/-! ### Moves -/

/-- One move of the parser. -/
inductive Move : Input → Input → Prop
  /-- It takes the current token, a malformed one only after an error. -/
  | take {input : Input} (ahead : input.ahead ≠ [])
      (known : input.current.lexeme.isPlain ∨ input.errors ≠ #[]) : Move input input.advance
  /-- It records an error at the current token. -/
  | report (input : Input) (fault : SyntaxFault) :
      Move input (input.report ⟨fault, input.current.position⟩)

/-- The parser gets from one input to another by its moves. -/
def Leads (input after : Input) : Prop :=
  Relation.ReflTransGen Move input after

namespace Leads

variable {input middle after : Input}

theorem refl (input : Input) : input.Leads input :=
  Relation.ReflTransGen.refl

theorem trans (h : input.Leads middle) (h' : middle.Leads after) : input.Leads after :=
  Relation.ReflTransGen.trans h h'

theorem move (h : Move input after) : input.Leads after :=
  Relation.ReflTransGen.single h

/-- An error at the current token can be recorded. -/
theorem report {error : SyntaxError} (h : error.position = input.current.position) :
    input.Leads (input.report error) := by
  obtain ⟨fault, position⟩ := error
  simp only at h
  subst h
  exact move (.report input fault)

/-- Once there is an error, any token can be taken. -/
theorem advance (h : input.errors ≠ #[]) : input.Leads input.advance := by
  by_cases hahead : input.ahead = []
  · rw [advance_of_nil hahead]
    exact refl input
  · exact move (.take hahead (.inr h))

/-- Once there is an error, any tokens can be skipped. -/
theorem skip (h : input.errors ≠ #[]) (n : Nat) : input.Leads (input.skip n) := by
  induction n generalizing input with
  | zero => exact refl input
  | succ n ih => exact (advance h).trans (ih (by simpa using h))

/-- What taking a token and recording an error keep, all moves keep. -/
theorem keeps {P : Input → Prop} (h : input.Leads after) (hadvance : ∀ i, P i → P i.advance)
    (hreport : ∀ i error, P i → P (i.report error)) (hinput : P input) : P after := by
  induction h with
  | refl => exact hinput
  | tail _ hm ih =>
    cases hm with
    | take _ _ => exact hadvance _ ih
    | report _ => exact hreport _ _ ih

/-- Every token that is no longer ahead has been counted. -/
theorem taken (h : input.Leads after) :
    after.taken + after.ahead.length = input.taken + input.ahead.length :=
  h.keeps (P := fun i => i.taken + i.ahead.length = input.taken + input.ahead.length)
    (fun _ hi => by rw [advance_taken, hi]) (fun _ _ hi => hi) rfl

/-- Tokens are taken from the front. -/
theorem suffix (h : input.Leads after) : after.ahead <:+ input.ahead := by
  refine h.keeps (P := fun i => i.ahead <:+ input.ahead) (fun i hi => ?_) (fun _ _ hi => hi)
    (List.suffix_refl _)
  rw [advance_ahead]
  exact (List.tail_suffix _).trans hi

theorem length_le (h : input.Leads after) : after.ahead.length ≤ input.ahead.length :=
  h.suffix.length_le

/-- Errors are only added, at the end. -/
theorem errors (h : input.Leads after) : input.errors.toList <+: after.errors.toList := by
  refine h.keeps (P := fun i => input.errors.toList <+: i.errors.toList) (fun i hi => ?_)
    (fun i error hi => hi.trans ?_) (List.prefix_refl _)
  · rwa [advance_errors]
  · simp [Input.report]

theorem errors_ne (h : input.Leads after) (herrors : input.errors ≠ #[]) :
    after.errors ≠ #[] := by
  intro hnone
  have hprefix := h.errors
  rw [hnone] at hprefix
  exact herrors (Array.toList_eq_nil_iff.1 (List.prefix_nil.1 hprefix))

/-- Where no token has been counted, the same ones are ahead. -/
theorem lexemes_eq (h : input.Leads after)
    (htaken : after.taken = input.taken) : after.lexemes = input.lexemes := by
  have hcounted := h.taken
  rw [lexemes, lexemes, h.suffix.eq_of_length (by omega)]

/-- If no error has been recorded, then no malformed token has been passed. -/
theorem passed (h : input.Leads after) (hclean : after.errors = #[]) :
    ∃ passed : List Token, input.ahead = passed ++ after.ahead ∧
      ∀ token ∈ passed, token.lexeme.isPlain := by
  induction h with
  | refl => exact ⟨[], rfl, by simp⟩
  | @tail middle last _ hm ih =>
    cases hm with
    | take hahead hknown =>
      rw [advance_errors] at hclean
      obtain ⟨passed, hpassed, hplain⟩ := ih hclean
      obtain ⟨token, rest, hrest⟩ := List.exists_cons_of_ne_nil hahead
      refine ⟨passed ++ [token], ?_, ?_⟩
      · rw [hpassed, advance_ahead, hrest]
        simp
      · have htoken : token.lexeme.isPlain := by
          rw [current_of_ahead hrest] at hknown
          exact hknown.resolve_right fun h => h hclean
        intro other hother
        rcases List.mem_append.1 hother with hother | hother
        · exact hplain other hother
        · rwa [List.mem_singleton.1 hother]
    | report _ => simp [Input.report] at hclean

end Leads

/-! ### Skipping -/

theorem Leads.synchronize {input : Input} (h : input.errors ≠ #[]) :
    input.Leads input.synchronize := by
  unfold Input.synchronize
  dsimp only
  split
  · refine (Leads.skip h _).trans (.advance ?_)
    exact (Leads.skip h _).errors_ne h
  · exact .skip h _

theorem Leads.skipBody {input : Input} (h : input.errors ≠ #[]) :
    input.Leads input.skipBody := by
  unfold Input.skipBody
  dsimp only
  split
  · exact (Leads.skip h _).trans (.skip ((Leads.skip h _).errors_ne h) _)
  · exact .skip h _

end Input

end Betty
