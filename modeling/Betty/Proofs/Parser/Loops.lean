import Betty.Program.Grammar
import Betty.Proofs.Outcome
import Betty.Proofs.Parser.Moves

/-!
# The loops of the parser

Five rules of the grammar are loops: those for global declarations, functions,
statements, cases and arms. Each of them repeats a round, which yields what it has found
and whether, and in which state, the loop goes on. So do the three loops that skip
tokens: `synchronize`, the search of `skipBody` for a body, and the one that counts the
braces of the body.

## Main definitions

* `Input.Repeats`, `Grammar.Repeats`: a loop repeats a round.
* `Input.synchronizeRound`, `Input.bodyRound`, `Input.braceRound`: the rounds that skip.
* `Grammar.globalRound`, `Grammar.functionRound`, `Grammar.statementRound`,
  `Grammar.caseRound`, `Grammar.armRound`: the rounds of the grammar.
-/

namespace Betty

namespace Input

/-! ### Skipping -/

/-- Skipping repeats `round`: a round takes tokens and yields, if the loop goes on, the
state of the next round. -/
def Repeats {σ : Type} (loop : σ → Input → Input) (round : σ → Input → Input × Option σ) :
    Prop :=
  ∀ state input, loop state input =
    match round state input with
    | (after, none) => after
    | (after, some next) => loop next after

/-- A round of `synchronize`, which ends at the end of the text, before a token that
resumes, and after a semicolon. -/
def synchronizeRound (_ : Unit) (input : Input) : Input × Option Unit :=
  if input.ahead = [] ∨ resumes input.current.lexeme then (input, none)
  else if input.current.lexeme.isSymbol .semicolon then (input.advance, none)
  else (input.advance, some ())

/-- Skips to the brace that closes the first opening one, of which `depth` are open
already. -/
def skipBraces (depth : Nat) (input : Input) : Input :=
  input.skip (bracedLength depth input.ahead)

/-- A round of the search for a body, which ends at the end of the text, before the next
function, and after the body. -/
def bodyRound (_ : Unit) (input : Input) : Input × Option Unit :=
  if input.ahead = [] ∨ input.current.lexeme.isKeyword .funcWord then (input, none)
  else if input.current.lexeme.isSymbol .leftBrace then (input.skipBraces 0, none)
  else (input.advance, some ())

/-- A round of the loop that counts the braces which are open. -/
def braceRound (depth : Nat) (input : Input) : Input × Option Nat :=
  if input.ahead = [] then (input, none)
  else if input.current.lexeme.isSymbol .leftBrace then (input.advance, some (depth + 1))
  else if input.current.lexeme.isSymbol .rightBrace then
    if depth = 1 then (input.advance, none) else (input.advance, some (depth - 1))
  else (input.advance, some depth)

theorem synchronize_repeats : Repeats (fun (_ : Unit) => synchronize) synchronizeRound := by
  intro _ input
  unfold synchronizeRound
  cases hahead : input.ahead with
  | nil => simp [synchronize, hahead, current_of_nil hahead, skip, Lexeme.isSymbol]
  | cons token rest =>
    have hcurrent := current_of_ahead hahead
    have hrest : input.advance.ahead = rest := by rw [advance_ahead, hahead]; rfl
    by_cases hsemi : token.lexeme.isSymbol .semicolon
    · have hresumes : resumes token.lexeme = false := by
        cases hl : token.lexeme <;> simp_all [Lexeme.isSymbol, resumes]
      simp [synchronize, hahead, hcurrent, hsemi, hresumes, skip]
    · by_cases hresumes : resumes token.lexeme
      · simp [synchronize, hahead, hcurrent, hsemi, hresumes, skip]
      · simp [synchronize, hahead, hcurrent, hsemi, hresumes, skip, hrest]

/-- One round of `synchronize`. -/
theorem synchronize_eq (input : Input) : input.synchronize =
    if input.ahead = [] ∨ resumes input.current.lexeme then input
    else if input.current.lexeme.isSymbol .semicolon then input.advance
    else input.advance.synchronize := by
  have hround := synchronize_repeats () input
  dsimp only at hround
  rw [hround, synchronizeRound]
  by_cases hstop : input.ahead = [] ∨ resumes input.current.lexeme
  · rw [if_pos hstop, if_pos hstop]
  · rw [if_neg hstop, if_neg hstop]
    by_cases hsemi : input.current.lexeme.isSymbol .semicolon
    · rw [if_pos hsemi, if_pos hsemi]
    · rw [if_neg hsemi, if_neg hsemi]

theorem skipBody_repeats : Repeats (fun (_ : Unit) => skipBody) bodyRound := by
  intro _ input
  unfold bodyRound
  cases hahead : input.ahead with
  | nil => simp [skipBody, hahead, current_of_nil hahead, skip, Lexeme.isSymbol]
  | cons token rest =>
    have hcurrent := current_of_ahead hahead
    have hrest : input.advance.ahead = rest := by rw [advance_ahead, hahead]; rfl
    by_cases hbrace : token.lexeme.isSymbol .leftBrace
    · have hfunc : token.lexeme.isKeyword .funcWord = false := by
        cases hl : token.lexeme <;> simp_all [Lexeme.isSymbol, Lexeme.isKeyword]
      simp [skipBody, hahead, hcurrent, hbrace, hfunc, skip, skipBraces]
    · by_cases hfunc : token.lexeme.isKeyword .funcWord
      · simp [skipBody, hahead, hcurrent, hbrace, hfunc, skip]
      · simp [skipBody, hahead, hcurrent, hbrace, hfunc, skip, hrest]

theorem skipBraces_repeats : Repeats skipBraces braceRound := by
  intro depth input
  unfold braceRound
  cases hahead : input.ahead with
  | nil => simp [skipBraces, hahead, bracedLength, skip]
  | cons token rest =>
    have hcurrent := current_of_ahead hahead
    have hrest : input.advance.ahead = rest := by rw [advance_ahead, hahead]; rfl
    simp only [skipBraces, hahead, hcurrent, bracedLength, reduceCtorEq, if_false]
    split
    · simp only [hrest, skip]
    · split
      · split
        · rfl
        · simp only [hrest, skip]
      · simp only [hrest, skip]

end Input

namespace Grammar

open Reading

/-! ### Rules -/

/-- The rule `loop` repeats `round`: a round yields what it has found and, if the loop goes
on, the state of the next round. -/
def Repeats {σ α : Type} (loop : Nat → σ → Reading (List α))
    (round : Nat → σ → Reading (List α × Option σ)) : Prop :=
  ∀ fuel state, loop (fuel + 1) state = do
    let (found, next) ← round fuel state
    match next with
    | none => return found
    | some state =>
      let rest ← loop fuel state
      return found ++ rest

/-- A declaration of global variables, or the end of the declarations. -/
def globalRound (fuel : Nat) (_ : Unit) : Reading (List (String × Position) × Option Unit) := do
  if ← atKeyword .globalWord then
    let found ← Action.recover (do
        advance
        let found ← names .globalVariable fuel
        expectSymbol .semicolon
        return found) fun error => do
      Action.update fun input => (input.report error).synchronize
      return []
    return (found, some ())
  else
    return ([], none)

/-- A function, a stray token, or the end of the text. -/
def functionRound (fuel : Nat) (_ : Unit) : Reading (List Declaration × Option Unit) := do
  match ← lexeme with
  | .endOfInput => return ([], none)
  | .keyword .funcWord =>
    let found ← Action.recover (do
        let declaration ← definition fuel
        return [declaration]) fun error => do
      Action.update fun input => (input.report error).skipBody
      return []
    return (found, some ())
  | .error fault =>
    absorb fault
    return ([], some ())
  | _ =>
    report .unexpectedAtTop
    advance
    return ([], some ())

/-- A statement, or a lexeme that ends the statements. -/
def statementRound (ends : Lexeme → Bool) (fuel : Nat) (_ : Unit) :
    Reading (List Stmt × Option Unit) := do
  if ends (← lexeme) then
    return ([], none)
  else
    let found ← recovered fuel
    return ([found], some ())

/-- A case, a stray token, or the end of the cases. -/
def caseRound (fuel : Nat) (closed : Bool) : Reading (List Case × Option Bool) := do
  match ← lexeme with
  | .keyword .caseWord =>
    if closed then report fun _ => .defaultNotLast
    advance
    let pattern ← expression fuel assignLevel
    let found ← caseBody fuel (some pattern)
    return (if closed then [] else [found], some closed)
  | .keyword .defaultWord =>
    if closed then report fun _ => .defaultNotLast
    advance
    let found ← caseBody fuel none
    return (if closed then [] else [found], some true)
  | other =>
    if endsBlock other then
      return ([], none)
    else
      report .expectedCase
      advance
      return ([], some closed)

/-- An arm and the comma after it, or the end of the arms. -/
def armRound (fuel : Nat) (closed : Bool) : Reading (List Arm × Option Bool) := do
  if endsBlock (← lexeme) then
    return ([], none)
  else
    if closed then report fun _ => .wildcardNotLast
    let pattern ← armPattern fuel
    expectSymbol .arrow
    let result ← expression fuel assignLevel
    let found := if closed then [] else [⟨pattern, result⟩]
    if ← atSymbol .comma then
      advance
      return (found, some (closed || pattern.isNone))
    else
      return (found, none)

theorem statements_repeats (ends : Lexeme → Bool) :
    Repeats (fun fuel (_ : Unit) => statements fuel ends) (statementRound ends) := by
  intro fuel _
  simp only [statements, statementRound, bind_assoc]
  refine bind_congr fun found => ?_
  split <;> simp

theorem globals_repeats : Repeats (fun fuel (_ : Unit) => globals fuel) globalRound := by
  intro fuel _
  simp only [globals, globalRound, bind_assoc]
  refine bind_congr fun found => ?_
  split <;> simp

theorem functions_repeats : Repeats (fun fuel (_ : Unit) => functions fuel) functionRound := by
  intro fuel _
  simp only [functions, functionRound, bind_assoc]
  refine bind_congr fun found => ?_
  split <;> simp

theorem cases_repeats : Repeats cases caseRound := by
  intro fuel closed
  simp only [cases, caseRound, bind_assoc]
  refine bind_congr fun found => ?_
  split
  · cases closed <;> simp
  · cases closed <;> simp
  · by_cases hends : endsBlock found <;> simp [hends]

theorem arms_repeats : Repeats arms armRound := by
  intro fuel closed
  simp only [arms, armRound, bind_assoc]
  refine bind_congr fun found => ?_
  by_cases hends : endsBlock found
  · simp [hends]
  · rw [if_neg hends, if_neg hends]
    cases closed with
    | false =>
      simp only [Bool.false_eq_true, if_false, Bool.false_or, bind_assoc]
      refine bind_congr fun pattern => bind_congr fun _ => bind_congr fun result => ?_
      refine bind_congr fun comma => ?_
      split <;> simp
    | true =>
      simp only [if_true, Bool.true_or, bind_assoc]
      refine bind_congr fun _ => bind_congr fun pattern => bind_congr fun _ => ?_
      refine bind_congr fun result => bind_congr fun comma => ?_
      split <;> simp

end Grammar

end Betty
