import Betty.Program.Parse
import Betty.Proofs.Parser.Rules.Programs
import Betty.Proofs.Token.Stream

/-!
# The parser finishes

Every text is read to its end, with the fuel that `Source.parse` gives. Behind this
stands that the parser always gets on: a statement takes a token whether it can be read
or not, and every loop takes a token in each round after which it goes on.

## Main definitions

* `Input.Advances`, `Grammar.Advances`: a loop that gets on.

## Main results

* `Source.program_done`: a text is read to its end.
* `Source.functions_done`: so are its functions, if it declares no global variables.
* `parser_progress`: the parser finishes and always gets on.
-/

namespace Betty

namespace Input

/-- Skipping repeats `round`, which takes a token whenever the loop goes on. -/
structure Advances {σ : Type} (loop : σ → Input → Input) (round : σ → Input → Input × Option σ) :
    Prop where
  repeats : Repeats loop round
  shorter : ∀ {state input after next}, round state input = (after, some next) →
    after.ahead.length < input.ahead.length

theorem advance_shorter {input : Input} (h : input.ahead ≠ []) :
    input.advance.ahead.length < input.ahead.length := by
  have hlength := advance_length h
  omega

theorem synchronize_advances :
    Advances (fun (_ : Unit) => synchronize) synchronizeRound where
  repeats := synchronize_repeats
  shorter {_ input _ _} h := by
    unfold synchronizeRound at h
    split at h
    · cases h
    · next hgoes =>
      split at h
      · cases h
      · cases h
        exact advance_shorter fun hnil => hgoes (.inl hnil)

theorem skipBody_advances : Advances (fun (_ : Unit) => skipBody) bodyRound where
  repeats := skipBody_repeats
  shorter {_ input _ _} h := by
    unfold bodyRound at h
    split at h
    · cases h
    · next hgoes =>
      split at h
      · cases h
      · cases h
        exact advance_shorter fun hnil => hgoes (.inl hnil)

/-- What a round that counts braces does if the loop goes on. -/
theorem braceRound_goes {depth next : Nat} {input after : Input}
    (h : braceRound depth input = (after, some next)) :
    input.ahead ≠ [] ∧ after = input.advance ∧
      (input.current.lexeme.isSymbol .leftBrace ∧ next = depth + 1 ∨
        input.current.lexeme.isSymbol .rightBrace ∧ depth ≠ 1 ∧ next = depth - 1 ∨
        next = depth ∧ ¬ input.current.lexeme.isSymbol .leftBrace) := by
  unfold braceRound at h
  split at h
  · cases h
  · next hahead =>
    split at h
    · next hopen =>
      cases h
      exact ⟨hahead, rfl, .inl ⟨hopen, rfl⟩⟩
    · next hopen =>
      split at h
      · next hclose =>
        split at h
        · cases h
        · next hone =>
          cases h
          exact ⟨hahead, rfl, .inr (.inl ⟨hclose, hone, rfl⟩)⟩
      · cases h
        exact ⟨hahead, rfl, .inr (.inr ⟨rfl, hopen⟩)⟩

theorem skipBraces_advances : Advances skipBraces braceRound where
  repeats := skipBraces_repeats
  shorter h := by
    obtain ⟨hahead, rfl, _⟩ := braceRound_goes h
    exact advance_shorter hahead

/-- One round of the loop that counts braces: the count and the input before and after. -/
def BraceStep (before after : Nat × Input) : Prop :=
  braceRound before.1 before.2 = (after.2, some after.1)

/-- In every state of the loop a brace is open, or is about to be opened. -/
theorem brace_open {start : Input} (hstart : start.current.lexeme.isSymbol .leftBrace)
    {state : Nat × Input} (h : Relation.ReflTransGen BraceStep (0, start) state) :
    0 < state.1 ∨ state.2.current.lexeme.isSymbol .leftBrace := by
  induction h with
  | refl => exact .inr hstart
  | tail _ hstep ih =>
    obtain ⟨_, _, hcases⟩ := braceRound_goes hstep
    rcases hcases with ⟨_, hnext⟩ | ⟨hclose, hone, hnext⟩ | ⟨hnext, hopen⟩
    · exact .inl (by omega)
    · rcases ih with hpos | hopen
      · exact .inl (by omega)
      · rw [Lexeme.isSymbol_iff] at hclose hopen
        rw [hopen] at hclose
        cases hclose
    · exact .inl (hnext ▸ ih.resolve_right hopen)

end Input

namespace Grammar

/-- The rule `loop` repeats `round`, which takes a token whenever the loop goes on. -/
structure Advances {σ α : Type} (loop : Nat → σ → Reading (List α))
    (round : Nat → σ → Reading (List α × Option σ)) : Prop where
  repeats : Repeats loop round
  shorter : ∀ {fuel state input found next after},
    round fuel state input = .done (found, some next) after →
    after.ahead.length < input.ahead.length

/-- A loop gets on if its rounds meet a specification. -/
theorem Advances.of_reads {σ α : Type} {loop : Nat → σ → Reading (List α)}
    {round : Nat → σ → Reading (List α × Option σ)} (hrepeats : Repeats loop round)
    {outlook : Outlook} {places : List α → List Position} {made : σ → List α → Option σ → Prop}
    {again post lost : Input → Prop} {cut : Nat → Input → Prop}
    (hround : ∀ fuel state input, RoundReads outlook input places (made state) again post lost
      (cut fuel input) (round fuel state input)) :
    Advances loop round where
  repeats := hrepeats
  shorter {fuel state input _ _ _} h := by
    have hreads := hround fuel state input
    rw [h] at hreads
    exact hreads.2.2.2

end Grammar

/-! ### Whole texts -/

namespace Grammar

variable {fuel : Nat} {input : Input} {done : List Declaration → Input → Prop}

/-- A program without declarations of global variables has none. -/
theorem globals_none (h : input.current.lexeme.isKeyword .globalWord = false) :
    (globals fuel input).Meets (fun found final => found = [] ∧ final = input)
      (fun _ _ => False) True := by
  cases fuel with
  | zero => trivial
  | succ fuel =>
    rw [globals, Action.meets_bind]
    refine (Action.meets_gets _ _).2 ?_
    rw [h]
    exact ⟨rfl, rfl⟩

/-- At the end of the text there is no further function. -/
theorem functions_nothing (h : input.current.lexeme = .endOfInput) :
    (functions fuel input).Meets (fun found final => found = [] ∧ final = input)
      (fun _ _ => False) True := by
  cases fuel with
  | zero => trivial
  | succ fuel =>
    rw [functions]
    refine (meets_lexeme _).2 ?_
    rintro _ rfl
    rw [h]
    exact ⟨rfl, rfl⟩

/-- A function that is read is kept, and then those after it are read. -/
theorem functions_kept {kept : Declaration → Input → Prop}
    (hfunc : input.current.lexeme = .keyword .funcWord)
    (hread : (definition fuel input).Meets kept (fun _ _ => False) True)
    (hrest : ∀ declaration middle, kept declaration middle → (functions fuel middle).Meets
      (fun others final => done (declaration :: others) final) (fun _ _ => False) True) :
    (functions (fuel + 1) input).Meets done (fun _ _ => False) True := by
  rw [functions]
  refine (meets_lexeme _).2 ?_
  rintro _ rfl
  rw [hfunc]
  simp only [Action.meets_bind, Action.meets_recover]
  refine hread.imp (fun declaration middle hkept => ?_) (fun _ _ => False.elim) id
  exact (hrest declaration middle hkept).imp (fun _ _ => id) (fun _ _ => id) id

/-- A function that cannot be read is dropped with its body, and then those after it are
read. -/
theorem functions_dropped {lost : SyntaxError → Input → Prop}
    (hfunc : input.current.lexeme = .keyword .funcWord)
    (hread : (definition fuel input).Meets (fun _ _ => False) lost True)
    (hrest : ∀ error middle, lost error middle →
      (functions fuel (middle.report error).skipBody).Meets done (fun _ _ => False) True) :
    (functions (fuel + 1) input).Meets done (fun _ _ => False) True := by
  rw [functions]
  refine (meets_lexeme _).2 ?_
  rintro _ rfl
  rw [hfunc]
  simp only [Action.meets_bind, Action.meets_recover]
  refine hread.imp (fun _ _ => False.elim) (fun error middle hlost => ?_) id
  exact (hrest error middle hlost).imp (fun _ _ => id) (fun _ _ => id) id

end Grammar

namespace Source

/-- The tokens of a text are the ones ahead of the parser at its start, and the one that
marks the end. -/
theorem tokenize_eq_input (source : Source) :
    tokenize source.text = source.input.ahead ++ [⟨.endOfInput, source.input.finish⟩] ∧
      ∀ token ∈ source.input.ahead, token.lexeme ≠ .endOfInput := by
  obtain ⟨body, finish, htokens, hnone⟩ := tokenize_eq source.text
  have hahead : source.input.ahead = body := by simp [input, Input.ofTokens, htokens]
  have hfinish : source.input.finish = finish := by simp [input, Input.ofTokens, htokens]
  rw [hahead, hfinish]
  exact ⟨htokens, hnone⟩

/-- What is ahead of the parser at its start, from the lexemes of the text. -/
theorem input_lexemes {source : Source} {lexemes : List Lexeme}
    (h : (tokenize source.text).map Token.lexeme = lexemes ++ [.endOfInput]) :
    source.input.lexemes = lexemes := by
  rw [source.tokenize_eq_input.1, List.map_append] at h
  exact List.append_cancel_right h

/-- Only at its end does a text have the token that marks the end. -/
theorem ahead_eq_nil {source : Source} {after : Input} (h : after.ahead <:+ source.input.ahead)
    (hend : after.current.lexeme = .endOfInput) : after.ahead = [] := by
  cases hahead : after.ahead with
  | nil => rfl
  | cons token rest =>
    have hmem : token ∈ source.input.ahead := h.subset (by simp [hahead])
    refine absurd ?_ (source.tokenize_eq_input.2 token hmem)
    rw [← Input.current_of_ahead hahead]
    exact hend

/-- A text is read to its end. -/
theorem program_done (source : Source) :
    ∃ program final,
      Grammar.program (Grammar.fuelFor source.input) source.input = .done program final ∧
        source.input.Leads final ∧ final.ahead = [] := by
  have hreads := Grammar.program_reads .any rfl (Grammar.fuelFor source.input) source.input
  have hend := Grammar.program_end (Grammar.fuelFor source.input) source.input
  cases hprogram : Grammar.program (Grammar.fuelFor source.input) source.input with
  | done program final =>
    rw [hprogram] at hreads hend
    exact ⟨program, final, rfl, hreads.1.leads, ahead_eq_nil hreads.1.leads.suffix hend⟩
  | failed error final =>
    rw [hprogram] at hreads
    exact hreads.1.elim
  | outOfFuel =>
    rw [hprogram] at hreads
    have hfuel : Grammar.fuelFor source.input < 16 * source.input.ahead.length + 2 := hreads
    unfold Grammar.fuelFor at hfuel
    omega

/-- What `parse` yields is what the grammar does. -/
theorem parse_eq {source : Source} {program : Program} {final : Input}
    (h : Grammar.program (Grammar.fuelFor source.input) source.input = .done program final) :
    source.parse = ⟨program, final.errors.toList⟩ := by
  unfold parse
  rw [h]

/-- The program of a text that declares no global variables consists of its functions. -/
theorem functions_done (source : Source)
    (hglobal : source.input.current.lexeme.isKeyword .globalWord = false) :
    ∃ fuel found final, Grammar.functions fuel source.input = .done found final ∧
      source.parse = ⟨⟨[], found⟩, final.errors.toList⟩ := by
  obtain ⟨program, final, hprogram, _, _⟩ := source.program_done
  have hmeets : (Grammar.program (Grammar.fuelFor source.input) source.input).Meets
      (fun program final => program.globals = [] ∧
        Grammar.functions (Grammar.fuelFor source.input) source.input =
          .done program.functions final)
      (fun _ _ => True) True := by
    unfold Grammar.program
    rw [Action.meets_bind]
    refine (Grammar.globals_none hglobal).imp ?_ (fun _ _ _ => trivial) id
    rintro _ _ ⟨rfl, rfl⟩
    rw [Action.meets_bind]
    cases Grammar.functions (Grammar.fuelFor source.input) source.input with
    | done found final => exact ⟨rfl, rfl⟩
    | failed error final => trivial
    | outOfFuel => trivial
  rw [hprogram] at hmeets
  obtain ⟨hnone, hrun⟩ := hmeets
  refine ⟨_, program.functions, final, hrun, ?_⟩
  rw [parse_eq hprogram, ← hnone]

end Source

/-- The parser finishes and always gets on.

* It reads every text to its end: no token is ahead, so the current one marks the end,
  and all others have been taken.
* From every state that is not at the end, a statement takes a token, whether it can be
  read or not.
* The loops of the grammar and those that skip tokens take a token or end in each round.
* The loop that counts braces from an opening one on never finds a closing brace when the
  count is zero. -/
theorem parser_progress :
    (∀ source : Source, ∃ program final,
      Grammar.program (Grammar.fuelFor source.input) source.input = .done program final ∧
        source.parse = ⟨program, final.errors.toList⟩ ∧
        final.current.lexeme = .endOfInput ∧
        final.taken + 1 = (tokenize source.text).length) ∧
    (∀ fuel input, input.current.lexeme ≠ .endOfInput →
      (Grammar.recovered fuel input).Meets
        (fun _ after => after.ahead.length < input.ahead.length) (fun _ _ => False)
        (fuel < 16 * input.ahead.length + 6)) ∧
    (Grammar.Advances (fun fuel (_ : Unit) => Grammar.globals fuel) Grammar.globalRound ∧
      Grammar.Advances (fun fuel (_ : Unit) => Grammar.functions fuel) Grammar.functionRound ∧
      Grammar.Advances (fun fuel (_ : Unit) => Grammar.statements fuel Grammar.endsBlock)
        (Grammar.statementRound Grammar.endsBlock) ∧
      Grammar.Advances (fun fuel (_ : Unit) => Grammar.statements fuel Grammar.endsCase)
        (Grammar.statementRound Grammar.endsCase) ∧
      Grammar.Advances Grammar.cases Grammar.caseRound ∧
      Grammar.Advances Grammar.arms Grammar.armRound ∧
      Input.Advances (fun (_ : Unit) => Input.synchronize) Input.synchronizeRound ∧
      Input.Advances (fun (_ : Unit) => Input.skipBody) Input.bodyRound ∧
      Input.Advances Input.skipBraces Input.braceRound) ∧
    (∀ start depth input, start.current.lexeme.isSymbol .leftBrace →
      Relation.ReflTransGen Input.BraceStep (0, start) (depth, input) →
      input.current.lexeme.isSymbol .rightBrace → 0 < depth) := by
  have hrules := Grammar.rules .any
  have hbraces := Grammar.Outlook.any_braces
  refine ⟨fun source => ?_, fun fuel input hend => ?_, ⟨?_, ?_, ?_, ?_, ?_, ?_,
    Input.synchronize_advances, Input.skipBody_advances, Input.skipBraces_advances⟩,
    fun start depth input hstart hrun hclose => ?_⟩
  · obtain ⟨program, final, hprogram, hleads, hahead⟩ := source.program_done
    refine ⟨program, final, hprogram, Source.parse_eq hprogram, ?_, ?_⟩
    · rw [Input.current_of_nil hahead]
    · have htaken := hleads.taken
      rw [hahead] at htaken
      rw [source.tokenize_eq_input.1]
      simpa [Source.input, Input.ofTokens] using htaken
  · refine Outcome.Meets.imp ((hrules fuel).recovered (fun h => nomatch h)
      (hbraces (.loose 0) input)) ?_ (fun _ _ h => h.1) id
    rintro _ after ⟨_, _, hlength⟩
    have hpos := List.length_pos_iff.2 (Input.ahead_ne_nil hend)
    omega
  · exact .of_reads Grammar.globals_repeats fun fuel _ input =>
      Grammar.globalRound_reads .any rfl fuel input
  · exact .of_reads Grammar.functions_repeats fun fuel _ input =>
      Grammar.functionRound_reads .any rfl fuel input
  · exact .of_reads (Grammar.statements_repeats _) fun fuel _ input =>
      (hrules fuel).statementRound_reads rfl rfl (hbraces (.loose 0) input)
  · exact .of_reads (Grammar.statements_repeats _) fun fuel _ input =>
      (hrules fuel).statementRound_reads rfl rfl (hbraces (.loose 0) input)
  · exact .of_reads Grammar.cases_repeats fun fuel closed input =>
      (hrules fuel).caseRound_reads closed (.inl (hbraces (.loose (0 + 1)) input))
  · exact .of_reads Grammar.arms_repeats fun fuel closed input =>
      (hrules fuel).armRound_reads closed (hbraces (.loose 0) input)
  · refine (Input.brace_open hstart hrun).resolve_right fun hopen => ?_
    rw [Lexeme.isSymbol_iff] at hclose hopen
    rw [hopen] at hclose
    cases hclose

/-- A text of an opening and a closing brace. -/
def Source.braces : Source where
  text := "\x7b\x7d"
  number := 0

theorem parser_progress_braces :
    (Source.braces.input.current.lexeme ≠ .endOfInput ∧
      (Grammar.recovered 40 Source.braces.input).Meets
        (fun _ after => after.ahead.length < Source.braces.input.ahead.length)
        (fun _ _ => False) (40 < 16 * Source.braces.input.ahead.length + 6)) ∧
    ∃ depth input, Relation.ReflTransGen Input.BraceStep (0, Source.braces.input) (depth, input) ∧
      input.current.lexeme.isSymbol .rightBrace ∧ 0 < depth := by
  have hopen : Source.braces.input.current.lexeme.isSymbol .leftBrace := by decide +kernel
  have hstart : Source.braces.input.current.lexeme ≠ .endOfInput := by
    rw [Lexeme.isSymbol_iff.1 hopen]
    exact Lexeme.noConfusion
  have hclose : Source.braces.input.advance.current.lexeme.isSymbol .rightBrace := by
    decide +kernel
  have hrun : Relation.ReflTransGen Input.BraceStep (0, Source.braces.input)
      (1, Source.braces.input.advance) := .single rfl
  obtain ⟨_, hstatement, _, hbraces⟩ := parser_progress
  exact ⟨⟨hstart, hstatement 40 _ hstart⟩, 1, _, hrun, hclose, hbraces _ _ _ hopen hrun hclose⟩

end Betty
