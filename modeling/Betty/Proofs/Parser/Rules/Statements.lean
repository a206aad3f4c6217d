import Betty.Proofs.Parser.Rules.Expressions

/-!
# What the rules for statements do

A statement that cannot be read becomes an error node, so the rules for blocks and for
statements in a row do not fail.

## Main results

* `rules`: all rules meet their specifications.
-/

namespace Betty.Grammar

open Reading

namespace Rules

variable {outlook : Outlook} {fuel : Nat} {n : Int} {input : Input}

/-! ### Rows of statements -/

theorem block_succ (ih : Rules outlook fuel)
    (hopen : input.current.lexeme = .symbol .leftBrace) (b : outlook.Braces (.loose n) input) :
    Reads outlook input 1 [] outlook.stmts (outlook.Braces (.loose n)) (fun _ => False)
      (fuel + 1 < 16 * input.ahead.length + 1) (Grammar.block (fuel + 1) input) := by
  rw [Grammar.block]
  simp only [Reads, Action.meets_bind]
  refine (seen_reads outlook hopen rfl (b.takeOpen hopen)).pass (.refl outlook [] input)
    fun _ i₁ h₁ b₁ l₁ => ?_
  refine (ih.statements endsBlock rfl rfl b₁).step h₁ (fun _ => id) (by omega)
    fun body i₂ h₂ b₂ l₂ => ?_
  refine (expectClose_reads b₂).pass h₂ fun _ i₃ h₃ b₃ l₃ => ?_
  exact ⟨h₃.imp (.refl _) And.right, b₃, by omega⟩

theorem statementRound_reads (ih : Rules outlook fuel) {ends : Lexeme → Bool}
    (hends : ends .endOfInput = true) (hbrace : ends (.symbol .rightBrace) = true)
    (b : outlook.Braces (.loose n) input) :
    RoundReads outlook input Stmt.declaredAll
      (fun found _ => Stmt.EverywhereAll outlook.check found) (outlook.Braces (.loose n))
      (outlook.Braces (.loose n)) (fun _ => False) (fuel + 1 < 16 * input.ahead.length + 7)
      (statementRound ends fuel () input) := by
  unfold statementRound
  refine (meets_lexeme _).2 fun found hfound => ?_
  split
  · exact ⟨.refl outlook [] input, Nat.le_refl _, b⟩
  · next hgoes =>
    -- The statements do not end here, so there is a token to take.
    have hahead : input.ahead ≠ [] := by
      refine Input.ahead_ne_nil fun hend => hgoes ?_
      rw [← hfound, hend, hends]
    have hlength := List.length_pos_iff.2 hahead
    have hclosing : input.current.lexeme.isSymbol .rightBrace = false := by
      refine Bool.eq_false_iff.2 fun hclosing => hgoes ?_
      rw [← hfound, Lexeme.isSymbol_iff.1 hclosing, hbrace]
    simp only [Action.meets_bind]
    refine (ih.recovered (fun _ => hclosing) b).step (.refl outlook [] input) (fun _ => id)
      (by omega) fun first i₁ h₁ b₁ l₁ => ?_
    refine ⟨h₁.imp ?_ ?_, by omega, b₁, by omega⟩
    · simp [Stmt.declaredAll, Outlook.stmt]
    · rintro ⟨_, hfirst⟩
      exact ⟨hfirst, trivial⟩

theorem statements_succ (ih : Rules outlook fuel) (ends : Lexeme → Bool)
    (hends : ends .endOfInput = true) (hbrace : ends (.symbol .rightBrace) = true)
    (b : outlook.Braces (.loose n) input) :
    Reads outlook input 0 [] outlook.stmts (outlook.Braces (.loose n)) (fun _ => False)
      (fuel + 1 < 16 * input.ahead.length + 7) (Grammar.statements (fuel + 1) ends input) :=
  (statements_repeats ends).reads_succ (fun _ => outlook.stmts) (fun _ => rfl)
    Stmt.declaredAll_append (fun _ => id) (fun _ _ _ => Stmt.everywhereAll_append)
    (ih.statementRound_reads hends hbrace b) fun _ _ => ih.statements ends hends hbrace

theorem recovered_succ (ih : Rules outlook fuel)
    (hbrace : outlook.mild.isSome → input.current.lexeme.isSymbol .rightBrace = false)
    (b : outlook.Braces (.loose n) input) :
    Reads outlook input (min 1 input.ahead.length) [] outlook.stmt (outlook.Braces (.loose n))
      (fun _ => False) (fuel + 1 < 16 * input.ahead.length + 6)
      (Grammar.recovered (fuel + 1) input) := by
  rw [Grammar.recovered]
  refine (meets_position _).2 ((meets_lexeme _).2 fun found hfound => ?_)
  split
  · next fault =>
    have hahead : input.ahead ≠ [] := Input.ahead_ne_nil (by simp [hfound])
    have hlength := Input.advance_length hahead
    obtain ⟨hreached, hshorter⟩ := Reached.synchronize outlook (.refl input) rfl
      (.advance (Input.report_errors_ne input ⟨.lexical fault, input.current.position⟩))
    refine ⟨hreached.imp (.refl _) fun h => outlook.passesStmt h,
      ((b.report _).take hfound rfl).synchronize,
      Nat.le_trans (Nat.add_le_add_right hshorter _) ?_⟩
    rw [Input.advance_ahead] at hlength ⊢
    simp only [Input.report_ahead]
    omega
  · simp only [Action.meets_bind, Action.meets_gets, Action.meets_recover, Action.meets_update]
    refine Outcome.Meets.imp (ih.statement b) ?_ ?_ (by omega)
    · rintro made i₁ ⟨h₁, b₁, l₁⟩
      exact ⟨h₁, b₁, by omega⟩
    · rintro error i₁ ⟨b₁, h₁, hplace⟩
      have htaken := h₁.taken
      have hlength := h₁.length_le
      split
      · next heq =>
        -- Nothing has been taken, so the handler takes a token itself.
        obtain ⟨hreached, hshorter⟩ := Reached.synchronize outlook h₁ hplace
          (.advance (Input.report_errors_ne _ _))
        rw [Input.advance_ahead, List.length_tail] at hshorter
        simp only [Input.report_taken, Input.report_ahead] at heq hshorter
        have hsame : i₁.current.lexeme = input.current.lexeme := by
          rw [Input.current_lexeme, Input.current_lexeme, Input.lexemes, Input.lexemes,
            h₁.suffix.eq_of_length (by omega)]
        refine ⟨hreached.imp (.refl _) fun h => outlook.passesStmt h, ?_, by omega⟩
        exact ((b₁.report error).takeAny fun hmild => hsame.symm ▸ hbrace hmild).synchronize
      · next hne =>
        obtain ⟨hreached, hshorter⟩ := Reached.synchronize outlook h₁ hplace
          (.refl (i₁.report error))
        simp only [Input.report_taken, Input.report_ahead] at hne hshorter
        exact ⟨hreached.imp (.refl _) fun h => outlook.passesStmt h,
          (b₁.report error).synchronize, by omega⟩

/-! ### Parts of statements -/

theorem exprStatement_succ (ih : Rules outlook fuel) :
    Whole outlook [] outlook.stmt (fuel + 1) 4 (Grammar.exprStatement (fuel + 1)) 1 := by
  intro n input b
  rw [Grammar.exprStatement]
  simp only [Reads, Action.meets_bind]
  refine (ih.expression _ b).step (.refl outlook [] input) (fun _ => id) (by omega)
    fun expr i₁ h₁ b₁ l₁ => ?_
  refine (expectSemicolon_reads b₁).pass h₁ fun _ i₂ h₂ b₂ l₂ => ?_
  refine ⟨h₂.imp (.refl _) ?_, b₂, by omega⟩
  rintro ⟨_, hexpr⟩
  exact ⟨outlook.passesStmt trivial, hexpr⟩

theorem definition_succ (ih : Rules outlook fuel)
    (hfunc : input.current.lexeme = .keyword .funcWord) (b : outlook.Braces (.loose n) input) :
    Reads outlook input 1 [] (outlook.function (·.isSome)) (outlook.Braces (.loose n))
      (outlook.Braces (.loose n)) (fuel + 1 < 16 * input.ahead.length + 1)
      (Grammar.definition (fuel + 1) input) := by
  rw [Grammar.definition]
  refine (meets_position _).2 ?_
  simp only [Action.meets_bind]
  refine (take_reads hfunc rfl b).step (.refl outlook [] input) (fun _ => False.elim) False.elim
    fun _ i₁ h₁ b₁ l₁ => ?_
  refine (expectName_reads _ b₁).step h₁ (fun _ => id) False.elim fun name i₂ h₂ b₂ l₂ => ?_
  refine (ih.function _ _ b₂.loosen).extend h₂ (.refl _) (fun _ => id) (by omega)
    fun declaration i₃ h₃ b₃ l₃ => ?_
  refine ⟨h₃.imp (.refl _) ?_, b₃, by omega⟩
  rintro ⟨_, hname, hdeclaration⟩
  exact ⟨Option.isSome_of_eq_some hname, hdeclaration⟩

theorem condition_succ (ih : Rules outlook fuel) :
    Part outlook [] outlook.expr (fuel + 1) 4 (Grammar.condition (fuel + 1)) := by
  intro n opens fresh input b
  rw [Grammar.condition]
  simp only [Reads, Action.meets_bind]
  refine (expectSymbol_reads rfl b).pass (.refl outlook [] input) fun _ i₁ h₁ b₁ l₁ => ?_
  refine (ih.expression _ b₁).step h₁ (fun _ => id) (by omega) fun test i₂ h₂ b₂ l₂ => ?_
  refine (expectSymbol_reads rfl b₂).pass h₂ fun _ i₃ h₃ b₃ l₃ => ?_
  exact ⟨h₃.imp (.refl _) And.right, b₃, by omega⟩

theorem optional_succ (ih : Rules outlook fuel) (sign : Symbol)
    (hsign : (Lexeme.symbol sign).isSymbol .rightBrace = false)
    (b : outlook.Braces (.loose n) input) :
    Reads outlook input 0 [] outlook.optional (outlook.Braces ⟨n, false, true⟩)
      (outlook.Braces (.loose n)) (fuel + 1 < 16 * input.ahead.length + 4)
      (Grammar.optional (fuel + 1) sign input) := by
  rw [Grammar.optional]
  simp only [Reads, atSymbol, Action.meets_bind, Action.meets_gets]
  split
  · next hfound =>
    have hbrace : input.current.lexeme.isSymbol .rightBrace = false := by
      rw [Lexeme.isSymbol_iff.1 hfound, hsign]
    exact ⟨.refl outlook [] input, b.freshen hbrace, Nat.le_refl _⟩
  · simp only [Action.meets_bind]
    refine (ih.expression _ b).step (.refl outlook [] input) (fun _ => id) (by omega)
      fun expr i₁ h₁ b₁ l₁ => ?_
    exact ⟨h₁.imp (.refl _) And.right, b₁, by omega⟩

theorem clauses_succ (ih : Rules outlook fuel) :
    Whole outlook [] outlook.clauses (fuel + 1) 1 (Grammar.clauses (fuel + 1)) 0 := by
  intro n input b
  have hstart := Reached.refl outlook [] input
  rw [Grammar.clauses]
  simp only [Reads, atKeyword, Action.meets_bind, Action.meets_gets]
  split
  · next helif =>
    have helif := Lexeme.isKeyword_iff.1 helif
    simp only [Action.meets_bind]
    refine (take_reads helif rfl b).pass hstart fun _ i₁ h₁ b₁ l₁ => ?_
    refine (ih.condition b₁).step h₁ (fun _ => id) (by omega) fun test i₂ h₂ b₂ l₂ => ?_
    refine (ih.recovered (b.controlled helif rfl b₂) b₂.loosen).step h₂ (fun _ => False.elim)
      (by omega) fun body i₃ h₃ b₃ l₃ => ?_
    refine (ih.clauses b₃).step h₃ (fun _ => id) (by omega) fun rest i₄ h₄ b₄ l₄ => ?_
    refine ⟨h₄.imp (.refl _) ?_, b₄, by omega⟩
    rintro ⟨⟨⟨_, htest⟩, hbody⟩, hrest⟩
    exact ⟨htest, hbody, hrest⟩
  · exact ⟨hstart, b, Nat.le_refl _⟩

/-! ### Cases -/

theorem caseBody_succ (ih : Rules outlook fuel) (pattern : Option Expr) :
    Whole outlook (Expr.declaredOption pattern)
      ((outlook.caseOf pattern).under (Expr.EverywhereOption outlook.check pattern)) (fuel + 1) 8
      (Grammar.caseBody (fuel + 1) pattern) 0 := by
  intro n input b
  rw [Grammar.caseBody]
  simp only [Reads, Action.meets_bind]
  refine (expectSymbol_reads rfl b).pass (.refl outlook (Expr.declaredOption pattern) input)
    fun _ i₁ h₁ b₁ l₁ => ?_
  refine (ih.statements endsCase rfl rfl b₁).step h₁ (fun _ => False.elim) (by omega)
    fun body i₂ h₂ b₂ l₂ => ?_
  refine ⟨h₂.imp ?_ ?_, b₂, by omega⟩
  · simp [Product.under, Outlook.caseOf, Outlook.stmts, Case.declaredAll]
  · rintro ⟨_, hbody⟩ hpattern
    exact ⟨rfl, hpattern, hbody, trivial⟩

/-- What is made of a case that has been read, after the default has `closed` the cases or
not. -/
theorem case_kept {start after : Input} {closed : Bool} {known : Prop} {found : Case}
    {next : Bool} (pattern : Option Expr)
    (h : Reached outlook start [] after (Case.declaredAll [found]) known)
    (hsound : known → (outlook.caseOf pattern).sound found)
    (hnext : closed || pattern.isNone → next = true) :
    Reached outlook start [] after (Case.declaredAll (if closed then [] else [found]))
      (Case.EverywhereAll outlook.check (if closed then [] else [found]) ∧
        KeptRound closed ((if closed then [] else [found]).map Case.pattern) (some next)) := by
  refine h.imp ?_ fun hknown => ?_
  · cases closed with
    | false => exact .refl _
    | true => exact List.nil_sublist _
  · obtain ⟨rfl, hfound⟩ := hsound hknown
    refine ⟨?_, keptRound_one Case.pattern closed found ?_⟩
    · cases closed with
      | false => exact hfound
      | true => trivial
    · rintro _ ⟨⟩
      exact hnext

theorem caseRound_reads (ih : Rules outlook fuel) (closed : Bool) (b : outlook.Held n input) :
    RoundReads outlook input Case.declaredAll
      (fun found next => Case.EverywhereAll outlook.check found ∧
        KeptRound closed (found.map Case.pattern) next)
      (outlook.Held n) (outlook.Braces (.loose (n + 1))) (outlook.Braces (.loose n))
      (fuel + 1 < 16 * input.ahead.length + 1) (caseRound fuel closed input) := by
  have hlost : ∀ after, outlook.Braces (.loose (n + 1)) after → outlook.Braces (.loose n) after :=
    fun _ hafter => hafter.weaken (by omega)
  unfold caseRound
  refine (meets_lexeme _).2 fun found hfound => ?_
  split
  · have b := b.taken (.inl (by rw [hfound]; rfl))
    refine reportIf_pass outlook (fun error h => h.report error) b
      fun i₁ h₁ b₁ hahead hcurrent => ?_
    have l₁ := congrArg List.length hahead
    simp only [Action.meets_bind]
    refine (take_reads (hcurrent ▸ hfound) rfl b₁).pass h₁ fun _ i₂ h₂ b₂ l₂ => ?_
    refine (ih.expression _ b₂).step h₂ hlost (by omega) fun pattern i₃ h₃ b₃ l₃ => ?_
    refine (ih.caseBody (some pattern) b₃.loosen).extend h₃ (.refl _) hlost (by omega)
      fun found i₄ h₄ b₄ l₄ => ?_
    refine ⟨case_kept (some pattern) h₄ ?_ ?_, by omega, .inl b₄, by omega⟩
    · rintro ⟨⟨_, hpattern⟩, hsound⟩
      exact hsound hpattern
    · exact fun hclosed => by simpa using hclosed
  · have b := b.taken (.inl (by rw [hfound]; rfl))
    refine reportIf_pass outlook (fun error h => h.report error) b
      fun i₁ h₁ b₁ hahead hcurrent => ?_
    have l₁ := congrArg List.length hahead
    simp only [Action.meets_bind]
    refine (take_reads (hcurrent ▸ hfound) rfl b₁).pass h₁ fun _ i₂ h₂ b₂ l₂ => ?_
    refine (ih.caseBody none b₂.loosen).extend h₂ (.refl _) hlost (by omega)
      fun found i₃ h₃ b₃ l₃ => ?_
    refine ⟨case_kept none h₃ ?_ fun _ => rfl, by omega, .inl b₃, by omega⟩
    rintro ⟨_, hsound⟩
    exact hsound trivial
  · split
    · next hends =>
      rw [← hfound] at hends
      exact ⟨(Reached.refl outlook [] input).imp (.refl _) fun _ => ⟨trivial, .stopped⟩,
        Nat.le_refl _, b.taken (.inr hends)⟩
    · next hgoes =>
      rw [← hfound] at hgoes
      have hahead : input.ahead ≠ [] := by
        refine Input.ahead_ne_nil fun hend => hgoes ?_
        rw [hend]
        rfl
      refine stray_pass outlook hahead fun error i₁ heq h₁ l₁ => ?_
      subst heq
      refine ⟨h₁.imp (.refl _) fun _ => ⟨trivial, .nothing ?_⟩, by omega,
        (b.report error).takeStray hgoes, by omega⟩
      rintro _ ⟨⟩
      exact id

theorem cases_succ (ih : Rules outlook fuel) (closed : Bool) (b : outlook.Held n input) :
    Reads outlook input 0 [] (outlook.cases closed) (outlook.Braces (.loose (n + 1)))
      (outlook.Braces (.loose n)) (fuel + 1 < 16 * input.ahead.length + 1)
      (Grammar.cases (fuel + 1) closed input) := by
  refine cases_repeats.reads_succ outlook.cases (fun _ => rfl) Case.declaredAll_append ?_ ?_
    (ih.caseRound_reads closed b) fun state _ b => ih.cases state b
  · rintro found ⟨hfound, hround⟩
    exact ⟨hfound, hround.kept⟩
  · rintro found next rest ⟨hfound, hround⟩ ⟨hrest, hkept⟩
    refine ⟨Case.everywhereAll_append hfound hrest, ?_⟩
    rw [List.map_append]
    exact hround.append hkept

/-! ### Statements -/

theorem statement_succ (ih : Rules outlook fuel) :
    Whole outlook [] outlook.stmt (fuel + 1) 5 (Grammar.statement (fuel + 1)) 1 := by
  intro n input b
  have hstart := Reached.refl outlook [] input
  rw [Grammar.statement]
  refine (meets_position _).2 ((meets_lexeme _).2 fun found hfound => ?_)
  split
  · -- A block.
    simp only [Action.meets_bind]
    refine (ih.block hfound b).step hstart (fun _ => False.elim) (by omega)
      fun body i₁ h₁ b₁ l₁ => ?_
    refine ⟨h₁.imp (.refl _) ?_, b₁, by omega⟩
    rintro ⟨_, hbody⟩
    exact ⟨outlook.passesStmt trivial, hbody⟩
  · -- An `if` with its clauses.
    simp only [atKeyword, Action.meets_bind, Action.meets_gets]
    refine (take_reads hfound rfl b).pass hstart fun _ i₁ h₁ b₁ l₁ => ?_
    refine (ih.condition b₁).step h₁ (fun _ => id) (by omega) fun test i₂ h₂ b₂ l₂ => ?_
    refine (ih.recovered (b.controlled hfound rfl b₂) b₂.loosen).step h₂ (fun _ => False.elim)
      (by omega) fun yes i₃ h₃ b₃ l₃ => ?_
    refine (ih.clauses b₃).step h₃ (fun _ => id) (by omega) fun found i₄ h₄ b₄ l₄ => ?_
    split
    · next helse =>
      have helse := Lexeme.isKeyword_iff.1 helse
      simp only [Action.meets_bind]
      refine (take_reads helse rfl b₄).pass h₄ fun _ i₅ h₅ b₅ l₅ => ?_
      refine (ih.recovered (b₄.controlled helse rfl b₅) b₅.loosen).step h₅ (fun _ => False.elim)
        (by omega) fun otherwise i₆ h₆ b₆ l₆ => ?_
      refine ⟨h₆.imp (.refl _) ?_, b₆, by omega⟩
      rintro ⟨⟨⟨⟨_, htest⟩, hyes⟩, hfound⟩, hotherwise⟩
      exact ⟨outlook.passesStmt trivial, htest, hyes, hfound, hotherwise⟩
    · refine ⟨h₄.imp ?_ ?_, b₄, by omega⟩
      · simp [Outlook.stmt, Outlook.expr, Outlook.clauses, Stmt.declared, Stmt.declaredOption]
      · rintro ⟨⟨⟨_, htest⟩, hyes⟩, hfound⟩
        exact ⟨outlook.passesStmt trivial, htest, hyes, hfound, trivial⟩
  · -- A `for` loop: each of its three parts can be missing.
    simp only [Action.meets_bind]
    refine (take_reads hfound rfl b).pass hstart fun _ i₁ h₁ b₁ l₁ => ?_
    refine (expectSymbol_reads rfl b₁).pass h₁ fun _ i₂ h₂ b₂ l₂ => ?_
    refine (ih.optional _ rfl b₂.loosen).step h₂ (fun _ => id) (by omega)
      fun start i₃ h₃ b₃ l₃ => ?_
    refine (expectSemicolon_reads b₃).pass h₃ fun _ i₄ h₄ b₄ l₄ => ?_
    refine (ih.optional _ rfl b₄).step h₄ (fun _ => id) (by omega) fun test i₅ h₅ b₅ l₅ => ?_
    refine (expectSemicolon_reads b₅).pass h₅ fun _ i₆ h₆ b₆ l₆ => ?_
    refine (ih.optional _ rfl b₆).step h₆ (fun _ => id) (by omega) fun step i₇ h₇ b₇ l₇ => ?_
    refine (expectSymbol_reads rfl b₇).pass h₇ fun _ i₈ h₈ b₈ l₈ => ?_
    refine (ih.recovered (b.controlled hfound rfl b₈) b₈.loosen).step h₈ (fun _ => False.elim)
      (by omega) fun body i₉ h₉ b₉ l₉ => ?_
    refine ⟨h₉.imp (.refl _) ?_, b₉, by omega⟩
    rintro ⟨⟨⟨⟨_, hstart⟩, htest⟩, hstep⟩, hbody⟩
    exact ⟨outlook.passesStmt trivial, hstart, htest, hstep, hbody⟩
  · -- A `foreach` loop.
    simp only [Action.meets_bind]
    refine (take_reads hfound rfl b).pass hstart fun _ i₁ h₁ b₁ l₁ => ?_
    refine (expectSymbol_reads rfl b₁).pass h₁ fun _ i₂ h₂ b₂ l₂ => ?_
    refine (expectName_reads _ b₂).step h₂ (fun _ => id) False.elim
      fun element i₃ h₃ b₃ l₃ => ?_
    refine (expectKeyword_reads _ b₃).pass h₃ fun _ i₄ h₄ b₄ l₄ => ?_
    refine (ih.expression _ b₄).step h₄ (fun _ => id) (by omega) fun iterable i₅ h₅ b₅ l₅ => ?_
    refine (expectSymbol_reads rfl b₅).pass h₅ fun _ i₆ h₆ b₆ l₆ => ?_
    refine (ih.recovered (b.controlled hfound rfl b₆) b₆.loosen).step h₆ (fun _ => False.elim)
      (by omega) fun body i₇ h₇ b₇ l₇ => ?_
    refine ⟨h₇.imp (.refl _) ?_, b₇, by omega⟩
    rintro ⟨⟨_, hiterable⟩, hbody⟩
    exact ⟨outlook.passesStmt trivial, hiterable, hbody⟩
  · -- A `while` loop.
    simp only [Action.meets_bind]
    refine (take_reads hfound rfl b).pass hstart fun _ i₁ h₁ b₁ l₁ => ?_
    refine (ih.condition b₁).step h₁ (fun _ => id) (by omega) fun test i₂ h₂ b₂ l₂ => ?_
    refine (ih.recovered (b.controlled hfound rfl b₂) b₂.loosen).step h₂ (fun _ => False.elim)
      (by omega) fun body i₃ h₃ b₃ l₃ => ?_
    refine ⟨h₃.imp (.refl _) ?_, b₃, by omega⟩
    rintro ⟨⟨_, htest⟩, hbody⟩
    exact ⟨outlook.passesStmt trivial, htest, hbody⟩
  · -- A `do` loop, with the condition after the body.
    simp only [Action.meets_bind]
    refine (take_reads hfound rfl b).pass hstart fun _ i₁ h₁ b₁ l₁ => ?_
    refine (ih.recovered (b.controlled hfound rfl b₁) b₁.loosen).step h₁ (fun _ => False.elim)
      (by omega) fun body i₂ h₂ b₂ l₂ => ?_
    refine (expectKeyword_reads _ b₂).pass h₂ fun _ i₃ h₃ b₃ l₃ => ?_
    refine (ih.condition b₃).step h₃ (fun _ => id) (by omega) fun test i₄ h₄ b₄ l₄ => ?_
    refine (expectSemicolon_reads b₄).pass h₄ fun _ i₅ h₅ b₅ l₅ => ?_
    refine ⟨h₅.imp (.refl _) ?_, b₅, by omega⟩
    rintro ⟨⟨_, hbody⟩, htest⟩
    exact ⟨outlook.passesStmt trivial, hbody, htest⟩
  · -- A `switch`, whose brace comes after its subject.
    simp only [Action.meets_bind]
    refine (seen_reads outlook hfound rfl (b.takeSwitch hfound)).pass hstart
      fun _ i₁ h₁ b₁ l₁ => ?_
    refine (ih.condition b₁).step h₁ (fun _ => id) (by omega) fun subject i₂ h₂ b₂ l₂ => ?_
    refine (expectOpen_reads b₂).pass h₂ fun _ i₃ h₃ b₃ l₃ => ?_
    refine (ih.cases false b₃).step h₃ (fun _ => id) (by omega) fun found i₄ h₄ b₄ l₄ => ?_
    refine (expectClose_reads b₄).pass h₄ fun _ i₅ h₅ b₅ l₅ => ?_
    refine ⟨h₅.imp (.refl _) ?_, b₅, by omega⟩
    rintro ⟨⟨_, hsubject⟩, hfound, hkept⟩
    exact ⟨outlook.passesStmt hkept.1, hsubject, hfound⟩
  · -- A `break`.
    simp only [Action.meets_bind]
    refine (take_reads hfound rfl b).pass hstart fun _ i₁ h₁ b₁ l₁ => ?_
    refine (expectSemicolon_reads b₁).pass h₁ fun _ i₂ h₂ b₂ l₂ => ?_
    exact ⟨h₂.imp (.refl _) fun _ => outlook.passesStmt trivial, b₂, by omega⟩
  · -- A `continue`.
    simp only [Action.meets_bind]
    refine (take_reads hfound rfl b).pass hstart fun _ i₁ h₁ b₁ l₁ => ?_
    refine (expectSemicolon_reads b₁).pass h₁ fun _ i₂ h₂ b₂ l₂ => ?_
    exact ⟨h₂.imp (.refl _) fun _ => outlook.passesStmt trivial, b₂, by omega⟩
  · -- A `return`, with or without a value.
    simp only [atSymbol, Action.meets_bind, Action.meets_gets]
    refine (take_reads hfound rfl b).pass hstart fun _ i₁ h₁ b₁ l₁ => ?_
    split
    · simp only [Action.meets_bind]
      refine (expectSemicolon_reads b₁).pass h₁ fun _ i₂ h₂ b₂ l₂ => ?_
      exact ⟨h₂.imp (.refl _) fun _ => ⟨outlook.passesStmt trivial, trivial⟩, b₂, by omega⟩
    · simp only [Action.meets_bind]
      refine (ih.expression _ b₁).step h₁ (fun _ => id) (by omega) fun value i₂ h₂ b₂ l₂ => ?_
      refine (expectSemicolon_reads b₂).pass h₂ fun _ i₃ h₃ b₃ l₃ => ?_
      refine ⟨h₃.imp (.refl _) ?_, b₃, by omega⟩
      rintro ⟨_, hvalue⟩
      exact ⟨outlook.passesStmt trivial, hvalue⟩
  · -- Nothing but a semicolon.
    simp only [Action.meets_bind]
    have b₁ : outlook.Braces (.loose n) input.advance :=
      b.takeAny fun _ => by rw [hfound]; rfl
    refine (seen_reads outlook hfound rfl b₁).pass hstart fun _ i₁ h₁ b₁ l₁ => ?_
    exact ⟨h₁.imp (.refl _) fun _ => outlook.passesStmt trivial, b₁, l₁⟩
  · -- A function: a definition if a name follows, and else the start of an expression.
    simp only [Action.meets_bind, Action.meets_gets]
    split
    · exact (ih.exprStatement b).imp (Nat.le_refl _) (fun _ => id) (fun _ => id) (by omega)
    · simp only [Action.meets_bind]
      refine (ih.definition hfound b).step hstart (fun _ => id) (by omega)
        fun declaration i₁ h₁ b₁ l₁ => ?_
      refine ⟨h₁.imp (.refl _) ?_, b₁, l₁⟩
      rintro ⟨_, hname, hblock, hdeclaration⟩
      exact ⟨outlook.passesStmt ⟨hname, hblock⟩, hdeclaration⟩
  · -- All other statements are expressions.
    exact (ih.exprStatement b).imp (Nat.le_refl _) (fun _ => id) (fun _ => id) (by omega)

end Rules

/-- All rules meet their specifications, by induction on the fuel. -/
theorem rules (outlook : Outlook) (fuel : Nat) : Rules outlook fuel := by
  induction fuel with
  | zero => constructor <;> (repeat intro) <;> exact Nat.succ_pos _
  | succ fuel ih =>
    exact {
      expression := ih.expression_succ
      joined := ih.joined_succ
      operands := ih.operands_succ
      unary := ih.unary_succ
      suffixed := ih.suffixed_succ
      arguments := ih.arguments_succ
      items := ih.items_succ
      arms := ih.arms_succ
      armPattern := ih.armPattern_succ
      primary := ih.primary_succ
      listOrRange := ih.listOrRange_succ
      branches := ih.branches_succ
      function := ih.function_succ
      block := ih.block_succ
      statements := fun ends => ih.statements_succ ends
      recovered := ih.recovered_succ
      statement := ih.statement_succ
      exprStatement := ih.exprStatement_succ
      definition := ih.definition_succ
      condition := ih.condition_succ
      optional := fun sign => ih.optional_succ sign
      clauses := ih.clauses_succ
      cases := fun closed => ih.cases_succ closed
      caseBody := ih.caseBody_succ }

end Betty.Grammar
