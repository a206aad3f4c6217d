import Betty.Proofs.Parser.Readable.Expressions

/-!
# Reading printed statements and programs

What is printed for a statement is read back as that statement, whatever follows it, but
that no `elif` or `else` may follow one that ends in an `if` statement without `else`.

## Main results

* `readable`: all rules read what is printed for them.
* `program_takes`: a printed program is read back as that program.
-/

namespace Betty

namespace Grammar

open Reading

variable {bare : Bool} {numeral : Float → List Char} {fuel : Nat} {rest : List Lexeme}

/-! ### Parts of statements -/

theorem block_takes (ih : Readable bare numeral fuel) {body : List Stmt}
    (h : Stmt.EverywhereAll (normalNodes numeral) body) :
    (block (fuel + 1)).Takes
      (.symbol .leftBrace :: (Stmt.lexemesAll bare body ++ .symbol .rightBrace :: rest)) rest
      (Stmt.unplacedAll · = Stmt.unplacedAll body) := by
  rw [block]
  refine .seq .advance fun _ => ?_
  refine .bind (ih.statements h (fun hstarts => (Lexeme.startsStmt_not hstarts).2.1) rfl rfl)
    fun found hfound => ?_
  exact .seq (.expectSymbol _) fun _ => .pure hfound

theorem statements_takes (ih : Readable bare numeral fuel) {body : List Stmt}
    {ends : Lexeme → Bool} (h : Stmt.EverywhereAll (normalNodes numeral) body)
    (hstarts : ∀ {lexeme : Lexeme}, lexeme.startsStmt → ends lexeme = false)
    (hends : ends (rest.headD .endOfInput))
    (hrest : (rest.headD .endOfInput).continuesIf = false) :
    (statements (fuel + 1) ends).Takes (Stmt.lexemesAll bare body ++ rest) rest
      (Stmt.unplacedAll · = Stmt.unplacedAll body) := by
  rw [statements]
  refine .look ?_
  cases body with
  | nil =>
    rw [Stmt.lexemesAll, List.nil_append, if_pos hends]
    exact .pure rfl
  | cons first more =>
    obtain ⟨hfirst, hmore⟩ := h
    rw [Stmt.lexemesAll, List.append_assoc]
    have hstart := (Stmt.lexemes_starts bare hfirst).head (Stmt.lexemesAll bare more ++ rest)
    rw [if_neg (Bool.eq_false_iff.1 (hstarts hstart))]
    refine .bind (ih.recovered hfirst fun _ => Stmt.lexemesAll_not_continuesIf hmore hrest)
      fun found hfound => ?_
    refine .bind (ih.statements hmore hstarts hends hrest) fun others hothers => .pure ?_
    simp only [Stmt.unplacedAll, hfound, hothers]

theorem recovered_takes (ih : Readable bare numeral fuel) {s : Stmt}
    (h : s.Everywhere (normalNodes numeral))
    (hrest : s.endsOpen → (rest.headD .endOfInput).continuesIf = false) :
    (recovered (fuel + 1)).Takes (s.lexemes bare ++ rest) rest (·.unplaced = s.unplaced) := by
  rw [recovered]
  refine .seq .position fun _ => .look ?_
  have hstart := (Stmt.lexemes_starts bare h).head rest
  generalize (s.lexemes bare ++ rest).headD .endOfInput = first at hstart
  split
  · cases hstart
  · exact .seq (.gets _) fun _ => .recover (ih.statement h hrest)

theorem exprStatement_takes (ih : Readable bare numeral fuel) {e : Expr}
    (h : e.Everywhere (normalNodes numeral)) :
    (exprStatement (fuel + 1)).Takes (e.whole bare ++ .symbol .semicolon :: rest) rest
      (·.unplaced = .expr e.unplaced) := by
  rw [exprStatement]
  refine .bind (ih.whole h rfl) fun found hfound => .seq (.expectSymbol _) fun _ => .pure ?_
  rw [Stmt.unplaced, hfound]

theorem condition_takes (ih : Readable bare numeral fuel) {e : Expr}
    (h : e.Everywhere (normalNodes numeral)) :
    (condition (fuel + 1)).Takes
      (.symbol .leftParen :: (e.whole bare ++ .symbol .rightParen :: rest)) rest
      (·.unplaced = e.unplaced) := by
  rw [condition]
  refine .seq (.expectSymbol _) fun _ => .bind (ih.whole h rfl) fun found hfound => ?_
  exact .seq (.expectSymbol _) fun _ => .pure hfound

theorem optional_takes (ih : Readable bare numeral fuel) {e : Option Expr} (sign : Symbol)
    (h : Expr.EverywhereOption (normalNodes numeral) e) (hends : (Lexeme.symbol sign).endsExpr)
    (hstarts : (Lexeme.symbol sign).startsExpr = false) :
    (optional (fuel + 1) sign).Takes (Expr.lexemesOption bare e ++ .symbol sign :: rest)
      (.symbol sign :: rest) (Expr.unplacedOption · = Expr.unplacedOption e) := by
  rw [optional]
  cases e with
  | none => exact .ifSymbol (.pure rfl)
  | some e =>
    refine .ifNotSymbol ((Expr.whole_starts bare h).not_isSymbol hstarts _) ?_
    refine .bind (ih.whole h hends) fun found hfound => .pure ?_
    rw [Expr.unplacedOption, Expr.unplacedOption, hfound]

theorem clauses_takes (ih : Readable bare numeral fuel) {clauses : List Clause} (hasElse : Bool)
    (h : Clause.EverywhereAll (normalNodes numeral) clauses)
    (hclosed : bodiesClosed hasElse (clauses.map Clause.body))
    (helif : (rest.headD .endOfInput).isKeyword .elifWord = false)
    (hrest : hasElse = false → (rest.headD .endOfInput).continuesIf = false) :
    (Grammar.clauses (fuel + 1)).Takes (Clause.lexemesAll bare clauses ++ rest) rest
      (Clause.unplacedAll · = Clause.unplacedAll clauses) := by
  rw [Grammar.clauses]
  cases clauses with
  | nil => exact .ifNotKeyword helif (.pure rfl)
  | cons clause more =>
    obtain ⟨condition, body⟩ := clause
    obtain ⟨hcondition, hbody, hmore⟩ := h
    simp only [Clause.lexemesAll, List.cons_append, List.append_assoc]
    refine .ifKeyword (.seq .advance fun _ => ?_)
    refine .bind (ih.condition hcondition) fun test htest => ?_
    refine .bind (ih.recovered hbody ?_) fun found hfound => ?_
    · intro hopen
      obtain ⟨hnone, helse⟩ := bodiesClosed_cons hclosed hopen
      rw [List.map_eq_nil_iff.1 hnone]
      exact hrest helse
    refine .bind (ih.clauses hasElse hmore (bodiesClosed_tail hclosed) helif hrest)
      fun others hothers => .pure ?_
    simp only [Clause.unplacedAll, htest, hfound, hothers]

theorem caseBody_takes (ih : Readable bare numeral fuel) {body : List Stmt}
    (pattern : Option Expr) (h : Stmt.EverywhereAll (normalNodes numeral) body)
    (hends : endsCase (rest.headD .endOfInput))
    (hrest : (rest.headD .endOfInput).continuesIf = false) :
    (caseBody (fuel + 1) pattern).Takes
      (.symbol .colon :: (Stmt.lexemesAll bare body ++ rest)) rest fun found =>
        found.pattern = pattern ∧ Stmt.unplacedAll found.body = Stmt.unplacedAll body := by
  rw [caseBody]
  refine .seq (.expectSymbol _) fun _ => ?_
  refine .bind (ih.statements h (fun hstarts => (Lexeme.startsStmt_not hstarts).1) hends hrest)
    fun found hfound => ?_
  exact .pure ⟨rfl, hfound⟩

theorem cases_stop {closed : Bool} :
    (Grammar.cases fuel closed).Takes (.symbol .rightBrace :: rest) (.symbol .rightBrace :: rest)
      (· = []) := by
  cases fuel with
  | zero => exact .exhausted
  | succ fuel =>
    rw [Grammar.cases]
    exact .look (.pure rfl)

theorem cases_takes (ih : Readable bare numeral fuel) {cases : List Case}
    (h : Case.EverywhereAll (normalNodes numeral) cases)
    (hlast : wildcardLast (cases.map Case.pattern)) :
    (Grammar.cases (fuel + 1) false).Takes
      (Case.lexemesAll bare cases ++ .symbol .rightBrace :: rest) (.symbol .rightBrace :: rest)
      (Case.unplacedAll · = Case.unplacedAll cases) := by
  cases cases with
  | nil => exact cases_stop.imp fun found hfound => by rw [hfound]
  | cons first more =>
    obtain ⟨pattern, body⟩ := first
    obtain ⟨hpattern, hbody, hmore⟩ := h
    rw [Grammar.cases]
    have hnext := Case.lexemesAll_ends bare more rest
    cases pattern with
    | none =>
      -- The default is the last case.
      obtain rfl : more = [] := by simpa [wildcardLast] using hlast
      simp only [Case.lexemesAll, Expr.lexemesCase, List.cons_append, List.append_assoc,
        List.nil_append]
      refine .look (.seq .advance fun _ => ?_)
      refine .bind (ih.caseBody none hbody rfl rfl) fun found hfound => ?_
      refine .bind cases_stop fun others hothers => .pure ?_
      rw [if_neg Bool.false_ne_true, Case.unplacedAll_cons, hfound.1, hfound.2, hothers]
      rfl
    | some pattern =>
      simp only [Case.lexemesAll, Expr.lexemesCase, List.cons_append, List.append_assoc]
      refine .look (.seq .advance fun _ => ?_)
      refine .bind (ih.whole hpattern rfl) fun test htest => ?_
      refine .bind (ih.caseBody (some test) hbody hnext.1 hnext.2) fun found hfound => ?_
      refine .bind (ih.cases hmore hlast) fun others hothers => .pure ?_
      rw [if_neg Bool.false_ne_true, Case.unplacedAll_cons, hfound.1, hfound.2, hothers,
        Expr.unplacedOption, htest]
      rfl

/-! ### Statements -/

theorem statement_expr (ih : Readable bare numeral fuel) {e : Expr}
    (h : e.Everywhere (normalNodes numeral)) :
    (statement (fuel + 1)).Takes (e.whole bare ++ .symbol .semicolon :: rest) rest
      (·.unplaced = .expr e.unplaced) := by
  have hexpr : (exprStatement fuel).Takes (e.whole bare ++ .symbol .semicolon :: rest) rest
      (·.unplaced = .expr e.unplaced) := ih.exprStatement h
  obtain ⟨first, more, hcons, hfirst, hif, hfunc⟩ := Expr.whole_first bare h
  rw [hcons, List.cons_append] at hexpr ⊢
  rw [statement]
  refine .seq .position fun _ => .look ?_
  rw [List.headD_cons]
  -- Of the words that start another statement, an expression can only start with `func`.
  split
  case h_2 => exact absurd rfl hif
  case h_12 =>
    obtain ⟨others, rfl⟩ := hfunc rfl
    refine .bind .following fun next hnext => ?_
    rw [hnext]
    exact hexpr
  case h_13 => exact hexpr
  all_goals cases hfirst

theorem statement_branch (ih : Readable bare numeral fuel) {condition : Expr} {yes : Stmt}
    {clauses : List Clause} {otherwise : Option Stmt}
    (h : (Stmt.branch condition yes clauses otherwise).Everywhere (normalNodes numeral))
    (hrest : Stmt.elseEndsOpen otherwise → (rest.headD .endOfInput).continuesIf = false) :
    (statement (fuel + 1)).Takes
      ((Stmt.branch condition yes clauses otherwise).lexemes bare ++ rest) rest
      (·.unplaced = (Stmt.branch condition yes clauses otherwise).unplaced) := by
  obtain ⟨hclosed, hcondition, hyes, hclauses, hotherwise⟩ := h
  simp only [Stmt.lexemes, List.cons_append, List.append_assoc]
  rw [statement]
  refine .seq .position fun _ => .look (.seq .advance fun _ => ?_)
  refine .bind (ih.condition hcondition) fun test htest => ?_
  -- What follows the bodies is the `else` or the rest.
  have hnext : otherwise.isSome = false →
      ((Stmt.lexemesElse bare otherwise ++ rest).headD .endOfInput).continuesIf = false := by
    intro helse
    cases otherwise with
    | none => exact hrest rfl
    | some => cases helse
  refine .bind (ih.recovered hyes ?_) fun first hfirst => ?_
  · -- If the first body could go on, then no clause follows it.
    intro hopen
    obtain ⟨hnone, helse⟩ := bodiesClosed_cons hclosed hopen
    rw [List.map_eq_nil_iff.1 hnone]
    exact hnext helse
  refine .bind (ih.clauses otherwise.isSome hclauses (bodiesClosed_tail hclosed) ?_ hnext)
    fun found hfound => ?_
  · cases otherwise with
    | none => exact (Bool.or_eq_false_iff.1 (hrest rfl)).1
    | some => rfl
  cases otherwise with
  | none =>
    refine .ifNotKeyword (Bool.or_eq_false_iff.1 (hrest rfl)).2 (.pure ?_)
    simp only [Stmt.unplaced, Stmt.unplacedOption, htest, hfirst, hfound]
  | some otherwise =>
    refine .ifKeyword (.seq .advance fun _ => ?_)
    refine .bind (ih.recovered hotherwise hrest) fun last hlast => .pure ?_
    simp only [Stmt.unplaced, Stmt.unplacedOption, htest, hfirst, hfound, hlast]

theorem statement_forLoop (ih : Readable bare numeral fuel) {start condition step : Option Expr}
    {body : Stmt}
    (h : (Stmt.forLoop start condition step body).Everywhere (normalNodes numeral))
    (hrest : body.endsOpen → (rest.headD .endOfInput).continuesIf = false) :
    (statement (fuel + 1)).Takes
      ((Stmt.forLoop start condition step body).lexemes bare ++ rest) rest
      (·.unplaced = (Stmt.forLoop start condition step body).unplaced) := by
  obtain ⟨_, hstart, hcondition, hstep, hbody⟩ := h
  simp only [Stmt.lexemes, List.cons_append, List.append_assoc]
  rw [statement]
  refine .seq .position fun _ => .look (.seq .advance fun _ => .seq (.expectSymbol _) fun _ => ?_)
  refine .bind (ih.optional .semicolon hstart rfl rfl) fun first hfirst => ?_
  refine .seq (.expectSymbol _) fun _ => ?_
  refine .bind (ih.optional .semicolon hcondition rfl rfl) fun test htest => ?_
  refine .seq (.expectSymbol _) fun _ => ?_
  refine .bind (ih.optional .rightParen hstep rfl rfl) fun next hnext => ?_
  refine .seq (.expectSymbol _) fun _ => ?_
  refine .bind (ih.recovered hbody hrest) fun inner hinner => .pure ?_
  simp only [Stmt.unplaced, hfirst, htest, hnext, hinner]

theorem statement_returnStmt (ih : Readable bare numeral fuel) {value : Option Expr}
    (h : Expr.EverywhereOption (normalNodes numeral) value) :
    (statement (fuel + 1)).Takes ((Stmt.returnStmt value).lexemes bare ++ rest) rest
      (·.unplaced = (Stmt.returnStmt value).unplaced) := by
  simp only [Stmt.lexemes, List.cons_append, List.append_assoc, List.nil_append]
  rw [statement]
  refine .seq .position fun _ => .look (.seq .advance fun _ => ?_)
  refine .bind (.atSymbol _) fun semicolon hsemicolon => .bind (.atSymbol _) fun brace hbrace => ?_
  cases value with
  | none =>
    rw [if_pos (by rw [hsemicolon]; rfl)]
    exact .seq (.expectSymbol _) fun _ => .pure rfl
  | some value =>
    -- No expression starts like the end of a `return` without a value.
    have hsemicolon' : semicolon = false :=
      hsemicolon.trans ((Expr.whole_starts bare h).not_isSymbol rfl _)
    have hbrace' : brace = false := hbrace.trans ((Expr.whole_starts bare h).not_isSymbol rfl _)
    rw [hsemicolon', hbrace', if_neg (by decide)]
    refine .bind (ih.whole h rfl) fun found hfound => .seq (.expectSymbol _) fun _ => .pure ?_
    simp only [Stmt.unplaced, Expr.unplacedOption, hfound]

theorem statement_takes (ih : Readable bare numeral fuel) {s : Stmt}
    (h : s.Everywhere (normalNodes numeral))
    (hrest : s.endsOpen → (rest.headD .endOfInput).continuesIf = false) :
    (statement (fuel + 1)).Takes (s.lexemes bare ++ rest) rest (·.unplaced = s.unplaced) := by
  cases s with
  | expr e =>
    rw [Stmt.lexemes, List.append_assoc]
    exact statement_expr ih h.2
  | branch => exact statement_branch ih h hrest
  | forLoop => exact statement_forLoop ih h hrest
  | returnStmt => exact statement_returnStmt ih h.2
  | block body =>
    simp only [Stmt.lexemes, List.cons_append, List.append_assoc, List.nil_append]
    rw [statement]
    refine .seq .position fun _ => .look ?_
    refine .bind (ih.block h.2) fun found hfound => .pure ?_
    simp only [Stmt.unplaced, hfound]
  | foreachLoop element iterable body =>
    obtain ⟨_, hiterable, hbody⟩ := h
    simp only [Stmt.lexemes, List.cons_append, List.append_assoc]
    rw [statement]
    refine .seq .position fun _ => .look (.seq .advance fun _ => .seq (.expectSymbol _) fun _ => ?_)
    refine .bind (.expectName .loopVariable) fun name hname => .seq (.expectKeyword _) fun _ => ?_
    refine .bind (ih.whole hiterable rfl) fun found hfound => .seq (.expectSymbol _) fun _ => ?_
    refine .bind (ih.recovered hbody hrest) fun inner hinner => .pure ?_
    simp only [Stmt.unplaced, hname, hfound, hinner]
  | whileLoop condition body =>
    obtain ⟨_, hcondition, hbody⟩ := h
    simp only [Stmt.lexemes, List.cons_append, List.append_assoc]
    rw [statement]
    refine .seq .position fun _ => .look (.seq .advance fun _ => ?_)
    refine .bind (ih.condition hcondition) fun test htest => ?_
    refine .bind (ih.recovered hbody hrest) fun inner hinner => .pure ?_
    simp only [Stmt.unplaced, htest, hinner]
  | doWhileLoop body condition =>
    obtain ⟨_, hbody, hcondition⟩ := h
    simp only [Stmt.lexemes, List.cons_append, List.append_assoc, List.nil_append]
    rw [statement]
    refine .seq .position fun _ => .look (.seq .advance fun _ => ?_)
    refine .bind (ih.recovered hbody fun _ => rfl) fun inner hinner => ?_
    refine .seq (.expectKeyword _) fun _ => ?_
    refine .bind (ih.condition hcondition) fun test htest => ?_
    refine .seq (.expectSymbol _) fun _ => .pure ?_
    simp only [Stmt.unplaced, htest, hinner]
  | switch subject cases =>
    obtain ⟨hlast, hsubject, hcases⟩ := h
    simp only [Stmt.lexemes, List.cons_append, List.append_assoc, List.nil_append]
    rw [statement]
    refine .seq .position fun _ => .look (.seq .advance fun _ => ?_)
    refine .bind (ih.condition hsubject) fun value hvalue => .seq (.expectSymbol _) fun _ => ?_
    refine .bind (ih.cases hcases hlast) fun found hfound => ?_
    refine .seq (.expectSymbol _) fun _ => .pure ?_
    simp only [Stmt.unplaced, hvalue, hfound]
  | breakStmt =>
    rw [statement]
    exact .seq .position fun _ => .look (.seq .advance fun _ => .seq (.expectSymbol _) fun _ =>
      .pure rfl)
  | continueStmt =>
    rw [statement]
    exact .seq .position fun _ => .look (.seq .advance fun _ => .seq (.expectSymbol _) fun _ =>
      .pure rfl)
  | empty =>
    rw [statement]
    exact .seq .position fun _ => .look (.seq .advance fun _ => .pure rfl)
  | function declaration =>
    obtain ⟨⟨hname, hhead⟩, hbody⟩ := h
    rw [Stmt.lexemes, List.cons_append, statement]
    refine .seq .position fun _ => .look (.bind .following fun next hnext => ?_)
    -- The name tells a definition from a literal.
    have hnamed : next.isSymbol .leftParen = false := by
      obtain ⟨name, hname, _⟩ := hname
      rw [hnext, Declaration.lexemes_eq, hname]
      rfl
    rw [hnamed, if_neg Bool.false_ne_true]
    refine .bind (ih.definition hname hhead hbody) fun found hfound => .pure ?_
    simp only [Stmt.unplaced, hfound]
  | error => exact h.elim

theorem readable (bare : Bool) (numeral : Float → List Char) (fuel : Nat) :
    Readable bare numeral fuel := by
  induction fuel with
  | zero =>
    constructor <;> intros <;> exact .exhausted
  | succ fuel ih =>
    exact {
      primaryOperand := primaryOperand_takes ih
      primaryForm := primaryForm_takes ih
      suffixed := suffixed_takes ih
      unaryOperand := unaryOperand_takes ih
      unaryForm := unaryForm_takes ih
      operands := operands_takes ih
      joined := joined_takes ih
      exprOperand := exprOperand_takes ih
      exprForm := exprForm_takes ih
      items := items_takes ih
      arguments := arguments_takes ih
      listOrRange := listOrRange_takes ih
      armPattern := armPattern_takes ih
      arms := arms_takes ih
      branches := branches_takes ih
      function := function_takes ih
      block := block_takes ih
      statements := statements_takes ih
      recovered := recovered_takes ih
      statement := statement_takes ih
      exprStatement := exprStatement_takes ih
      definition := definition_takes ih
      condition := condition_takes ih
      optional := optional_takes ih
      clauses := clauses_takes ih
      cases := cases_takes ih
      caseBody := caseBody_takes ih }

/-! ### Programs -/

theorem globals_takes {declared : List (String × Position)}
    (hrest : (rest.headD .endOfInput).isKeyword .globalWord = false) :
    (globals fuel).Takes (globalsLexemes declared ++ rest) rest
      (fun found => found.map Prod.fst = declared.map Prod.fst) := by
  induction declared generalizing fuel with
  | nil =>
    cases fuel with
    | zero => exact .exhausted
    | succ fuel =>
      rw [globals]
      exact .ifNotKeyword hrest (.pure rfl)
  | cons first more ih =>
    obtain ⟨name, place⟩ := first
    cases fuel with
    | zero => exact .exhausted
    | succ fuel =>
      have hname : (names .globalVariable fuel).Takes
          (.identifier name :: .symbol .semicolon :: (globalsLexemes more ++ rest))
          (.symbol .semicolon :: (globalsLexemes more ++ rest))
          (fun found => found.map Prod.fst = [name]) :=
        names_takes .globalVariable (List.cons_ne_nil name []) rfl
      rw [globals]
      refine .ifKeyword (.bind (.recover (.seq .advance fun _ => .bind hname fun found hfound =>
        .seq (.expectSymbol _) fun _ => .pure hfound)) fun found hfound => ?_)
      refine .bind ih fun others hothers => .pure ?_
      rw [List.map_append, hfound, hothers]
      rfl

theorem functions_takes {declarations : List Declaration}
    (h : ∀ declaration ∈ declarations, declaration.IsNamed ∧ declaration.HasHead ∧
      declaration.Everywhere (normalNodes numeral)) :
    (functions fuel).Takes (functionsLexemes bare declarations) []
      (fun found => found.map Declaration.unplaced = declarations.map Declaration.unplaced) := by
  induction declarations generalizing fuel with
  | nil =>
    cases fuel with
    | zero => exact .exhausted
    | succ fuel =>
      rw [functions]
      exact .look (.pure rfl)
  | cons first more ih =>
    cases fuel with
    | zero => exact .exhausted
    | succ fuel =>
      obtain ⟨⟨hname, hhead, hbody⟩, hmore⟩ := List.forall_mem_cons.1 h
      have hfirst : (do
          let declaration ← definition fuel
          return [declaration] : Reading (List Declaration)).Takes
          (.keyword .funcWord :: (first.lexemes bare ++ functionsLexemes bare more))
          (functionsLexemes bare more)
          (fun found => found.map Declaration.unplaced = [first.unplaced]) := by
        refine .bind ((readable bare numeral fuel).definition hname hhead hbody)
          fun found hfound => .pure ?_
        rw [List.map_singleton, hfound]
      rw [functions]
      refine .look (.bind (.recover hfirst) fun found hfound => ?_)
      refine .bind (ih hmore) fun others hothers => .pure ?_
      rw [List.map_append, hfound, hothers]
      rfl

/-- A printed program is read back as that program, up to positions. -/
theorem program_takes {program : Program} (h : program.Normal numeral) (fuel : Nat) :
    (Grammar.program fuel).Takes (program.lexemes bare) [] (·.unplaced = program.unplaced) := by
  refine .bind (globals_takes ?_) fun found hfound => ?_
  · cases program.functions <;> rfl
  refine .bind (functions_takes h.functions) fun others hothers => .pure ?_
  have hglobals := congrArg (List.map fun name => (name, Position.unknown)) hfound
  rw [List.map_map, List.map_map] at hglobals
  exact congrArg₂ Program.mk hglobals hothers

end Grammar

end Betty
