import Betty.Proofs.Parser.Boundary
import Betty.Proofs.Parser.Recovery

/-!
# Errors stay within their statement

A statement that cannot be read becomes an error node, and the parser goes on after the next
semicolon. If the statement is an expression without braces and reserved words, then that is
the semicolon at its end, so the statements around it are read as if they stood alone.

The expression itself never takes a semicolon: only the statements in the body of a function
have any.

## Main definitions

* `Input.Skirts`: no semicolon has been taken, if no function is ahead.
* `Segment`: a well-formed statement, or a malformed one.

## Main results

* `Grammar.skirting`: expressions take no semicolon.
* `errors_stay_in_statements`: malformed statements do not disturb the others.
-/

namespace Betty

/-! ### Expressions take no semicolon -/

/-- If no function is ahead, then no semicolon has been taken. -/
def Input.Skirts (input after : Input) : Prop :=
  (∀ token ∈ input.ahead, token.lexeme.isKeyword .funcWord = false) →
    ∃ passed, input.ahead = passed ++ after.ahead ∧
      ∀ token ∈ passed, token.lexeme.isSymbol .semicolon = false

namespace Input.Skirts

variable {input middle after : Input}

theorem of_ahead (h : after.ahead = input.ahead) : input.Skirts after :=
  fun _ => ⟨[], by rw [h, List.nil_append], fun _ hmem => (List.not_mem_nil hmem).elim⟩

theorem trans (h : input.Skirts middle) (h' : middle.Skirts after) : input.Skirts after := by
  intro hnone
  obtain ⟨passed, hahead, hpassed⟩ := h hnone
  have hnone' : ∀ token ∈ middle.ahead, token.lexeme.isKeyword .funcWord = false := by
    intro token hmem
    exact hnone token (hahead ▸ List.mem_append_right _ hmem)
  obtain ⟨passed', hahead', hpassed'⟩ := h' hnone'
  refine ⟨passed ++ passed', by rw [hahead, hahead', List.append_assoc], fun token hmem => ?_⟩
  exact (List.mem_append.1 hmem).elim (hpassed token) (hpassed' token)

theorem advance (h : input.current.lexeme.isSymbol .semicolon = false) :
    input.Skirts input.advance := by
  intro _
  cases hahead : input.ahead with
  | nil => exact ⟨[], by rw [advance_of_nil hahead, hahead]; rfl, fun _ => nofun⟩
  | cons token rest =>
    refine ⟨[token], by rw [advance_ahead, hahead]; rfl, fun other hmem => ?_⟩
    rw [List.mem_singleton.1 hmem, ← current_of_ahead hahead]
    exact h

/-- Nothing is asked where a function starts. -/
theorem of_func (h : input.current.lexeme = .keyword .funcWord) : input.Skirts after := by
  intro hnone
  have hne : input.ahead ≠ [] := ahead_ne_nil (by simp [h])
  obtain ⟨token, rest, hahead⟩ := List.exists_cons_of_ne_nil hne
  have hfirst := hnone token (hahead ▸ List.mem_cons_self)
  rw [← current_of_ahead hahead, h] at hfirst
  cases hfirst

end Input.Skirts

namespace Reading

variable {α β : Type}

/-- From this input, the step takes no semicolon. -/
def SkirtsAt (input : Input) (step : Reading α) : Prop :=
  (step input).Meets (fun _ after => input.Skirts after) (fun _ after => input.Skirts after) True

/-- The step takes no semicolon. -/
def Skirts (step : Reading α) : Prop :=
  ∀ input, step.SkirtsAt input

theorem SkirtsAt.bind {input : Input} {first : Reading α} {second : α → Reading β}
    (h : first.SkirtsAt input) (h' : ∀ value, (second value).Skirts) :
    SkirtsAt input (first >>= second) := by
  unfold SkirtsAt
  rw [Action.meets_bind]
  refine Outcome.Meets.imp h ?_ (fun _ _ => id) id
  intro value middle hfirst
  exact (h' value middle).imp (fun _ _ => hfirst.trans) (fun _ _ => hfirst.trans) id

namespace Skirts

theorem pure (value : α) : Skirts (Pure.pure value) :=
  fun _ => .of_ahead rfl

theorem exhausted : Skirts (Action.exhausted : Reading α) :=
  fun _ => trivial

theorem gets (view : Input → α) : Skirts (Action.gets view) :=
  fun _ => .of_ahead rfl

theorem report (fault : Lexeme → SyntaxFault) : Skirts (Reading.report fault) :=
  fun _ => .of_ahead rfl

theorem reject (fault : Lexeme → SyntaxFault) : Skirts (Reading.reject fault : Reading α) :=
  fun _ => .of_ahead rfl

theorem bind {first : Reading α} {second : α → Reading β} (h : first.Skirts)
    (h' : ∀ value, (second value).Skirts) : Skirts (first >>= second) :=
  fun input => (h input).bind h'

theorem ite {condition : Prop} [Decidable condition] {yes no : Reading α} (hyes : yes.Skirts)
    (hno : no.Skirts) : Skirts (if condition then yes else no) := by
  split <;> assumption

/-- What follows a look at the current token. -/
theorem look {next : Lexeme → Reading α}
    (h : ∀ found input, input.current.lexeme = found → (next found).SkirtsAt input) :
    Skirts (lexeme >>= next) :=
  fun input => h _ input rfl

/-- The alternatives after a look for a token. -/
theorem test (there : Lexeme → Bool) {yes no : Reading α}
    (hyes : ∀ input : Input, there input.current.lexeme → yes.SkirtsAt input) (hno : no.Skirts) :
    Skirts (do if ← Action.gets fun input => there input.current.lexeme then yes else no) := by
  intro input
  unfold SkirtsAt
  rw [Action.meets_bind, Action.meets_gets]
  split
  · next hfound => exact hyes input hfound
  · exact hno input

end Skirts

/-- A token that is known not to be a semicolon is taken. -/
theorem advance_skirts {input : Input} {found : Lexeme} (h : input.current.lexeme = found)
    (hother : found.isSymbol .semicolon = false) : advance.SkirtsAt input :=
  Input.Skirts.advance (h ▸ hother)

theorem absorb_skirts {fault : LexicalFault} {input : Input}
    (h : input.current.lexeme = .error fault) : (absorb fault).SkirtsAt input := by
  have hreport : input.Skirts (input.report ⟨.lexical fault, input.current.position⟩) :=
    .of_ahead rfl
  refine hreport.trans (.advance ?_)
  rw [Input.report_current, h]
  rfl

namespace Skirts

/-- A sign that is taken if it is there, and what follows. -/
theorem ifSymbol {sign : Symbol} (hsign : (Lexeme.symbol sign).isSymbol .semicolon = false)
    {yes : Unit → Reading α} {no : Reading α} (hyes : ∀ value, (yes value).Skirts)
    (hno : no.Skirts) : Skirts (do if ← atSymbol sign then advance >>= yes else no) :=
  .test (·.isSymbol sign)
    (fun _ hfound => (advance_skirts (Lexeme.isSymbol_iff.1 hfound) hsign).bind hyes) hno

/-- A reserved word that is taken if it is there, and what follows. -/
theorem ifKeyword {word : Keyword} {yes : Unit → Reading α} {no : Reading α}
    (hyes : ∀ value, (yes value).Skirts) (hno : no.Skirts) :
    Skirts (do if ← atKeyword word then advance >>= yes else no) :=
  .test (·.isKeyword word)
    (fun _ hfound => (advance_skirts (Lexeme.isKeyword_iff.1 hfound) rfl).bind hyes) hno

theorem missing (fault : Lexeme → SyntaxFault) : Skirts (Reading.missing fault) := by
  refine .look fun found input hfound => ?_
  cases found with
  | error lexical => exact absorb_skirts hfound
  | _ => exact Skirts.report fault input

theorem expectSymbol {sign : Symbol} (hsign : (Lexeme.symbol sign).isSymbol .semicolon = false) :
    Skirts (Reading.expectSymbol sign) :=
  .test (·.isSymbol sign) (fun _ hfound => advance_skirts (Lexeme.isSymbol_iff.1 hfound) hsign)
    (.missing _)

theorem expectKeyword (word : Keyword) : Skirts (Reading.expectKeyword word) :=
  .test (·.isKeyword word) (fun _ hfound => advance_skirts (Lexeme.isKeyword_iff.1 hfound) rfl)
    (.missing _)

end Skirts

end Reading

namespace Grammar

open Reading

/-- The rules for expressions take no semicolon, with the given fuel. -/
structure Skirting (fuel : Nat) : Prop where
  expression : ∀ least, (expression fuel least).Skirts
  joined : ∀ least left, (joined fuel least left).Skirts
  operands : ∀ left joint, (operands fuel left joint).Skirts
  unary : (unary fuel).Skirts
  suffixed : ∀ expr, (suffixed fuel expr).Skirts
  arguments : (arguments fuel).Skirts
  items : (items fuel).Skirts
  arms : ∀ closed, (arms fuel closed).Skirts
  armPattern : (armPattern fuel).Skirts
  primary : (primary fuel).Skirts
  listOrRange : ∀ place, (listOrRange fuel place).Skirts
  branches : (branches fuel).Skirts

namespace Skirting

variable {fuel : Nat}

theorem expression_succ (ih : Skirting fuel) (least : Nat) :
    (Grammar.expression (fuel + 1) least).Skirts := by
  rw [Grammar.expression]
  exact .bind ih.unary fun _ => ih.joined _ _

theorem joined_succ (ih : Skirting fuel) (least : Nat) (left : Expr) :
    (Grammar.joined (fuel + 1) least left).Skirts := by
  rw [Grammar.joined]
  refine .look fun found input hfound => ?_
  cases found with
  | symbol sign =>
    dsimp only
    cases hjoint : joint? sign with
    | none => exact Skirts.pure _ input
    | some joint =>
      have hother : (Lexeme.symbol sign).isSymbol .semicolon = false := by
        cases sign with
        | semicolon => cases hjoint
        | _ => rfl
      dsimp only
      split
      · exact Skirts.pure _ input
      · refine (advance_skirts hfound hother).bind fun _ => ?_
        exact .bind (ih.operands _ _) fun _ => ih.joined _ _
  | _ => exact Skirts.pure _ input

theorem operands_succ (ih : Skirting fuel) (left : Expr) (joint : Joint) :
    (Grammar.operands (fuel + 1) left joint).Skirts := by
  cases joint with
  | assign op =>
    rw [Grammar.operands]
    exact .bind (ih.expression _) fun _ => .pure _
  | ternary =>
    rw [Grammar.operands]
    exact .bind (ih.expression _) fun _ => .bind (.expectSymbol rfl) fun _ =>
      .bind (ih.expression _) fun _ => .pure _
  | binary op level =>
    rw [Grammar.operands]
    exact .bind (ih.expression _) fun _ => .pure _

theorem unary_succ (ih : Skirting fuel) : (Grammar.unary (fuel + 1)).Skirts := by
  have hplain : Skirts (Grammar.primary fuel >>= Grammar.suffixed fuel) :=
    .bind ih.primary fun _ => ih.suffixed _
  rw [Grammar.unary]
  refine .bind (.gets _) fun _ => .look fun found input hfound => ?_
  cases found with
  | symbol sign =>
    dsimp only
    cases hleading : leadingOp? sign with
    | none => exact hplain input
    | some op =>
      have hother : (Lexeme.symbol sign).isSymbol .semicolon = false := by
        cases sign with
        | semicolon => cases hleading
        | _ => rfl
      exact (advance_skirts hfound hother).bind fun _ => .bind ih.unary fun _ => .pure _
  | _ => exact hplain input

theorem suffixed_succ (ih : Skirting fuel) (expr : Expr) :
    (Grammar.suffixed (fuel + 1) expr).Skirts := by
  rw [Grammar.suffixed]
  refine .look fun found input hfound => ?_
  have htakes := advance_skirts hfound
  split
  · exact (htakes rfl).bind fun _ => .bind ih.arguments fun _ => ih.suffixed _
  · exact (htakes rfl).bind fun _ => .bind (ih.expression _) fun _ =>
      .bind (.expectSymbol rfl) fun _ => ih.suffixed _
  · exact (htakes rfl).bind fun _ => ih.suffixed _
  · exact (htakes rfl).bind fun _ => ih.suffixed _
  · exact (htakes rfl).bind fun _ => .bind (.expectSymbol rfl) fun _ => .bind (ih.arms _) fun _ =>
      .bind (.expectSymbol rfl) fun _ => ih.suffixed _
  · exact Skirts.pure _ input

theorem arguments_succ (ih : Skirting fuel) : (Grammar.arguments (fuel + 1)).Skirts := by
  rw [Grammar.arguments]
  refine .ifSymbol rfl (fun _ => .pure _) (.bind (ih.expression _) fun _ => ?_)
  refine .bind ih.items fun _ => ?_
  exact .bind (.expectSymbol rfl) fun _ => .pure _

theorem items_succ (ih : Skirting fuel) : (Grammar.items (fuel + 1)).Skirts := by
  rw [Grammar.items]
  refine .ifSymbol rfl (fun _ => .bind (ih.expression _) fun _ => ?_) (.pure _)
  exact .bind ih.items fun _ => .pure _

theorem arms_succ (ih : Skirting fuel) (closed : Bool) :
    (Grammar.arms (fuel + 1) closed).Skirts := by
  have harm : ∀ _ : Unit, Skirts (do
      let pattern ← Grammar.armPattern fuel
      expectSymbol .arrow
      let result ← Grammar.expression fuel assignLevel
      let rest ←
        if ← atSymbol .comma then do
          advance
          Grammar.arms fuel (closed || pattern.isNone)
        else pure []
      return if closed then rest else ⟨pattern, result⟩ :: rest) := by
    intro _
    refine .bind ih.armPattern fun _ => .bind (.expectSymbol rfl) fun _ => ?_
    refine .bind (ih.expression _) fun _ => ?_
    exact .ifSymbol rfl (fun _ => .bind (ih.arms _) fun _ => .pure _) (.pure _)
  rw [Grammar.arms]
  refine .bind (.gets _) fun _ => .ite (.pure _) (.ite (.bind (.report _) harm) (harm ()))

theorem armPattern_succ (ih : Skirting fuel) : (Grammar.armPattern (fuel + 1)).Skirts := by
  rw [Grammar.armPattern]
  exact .ifKeyword (fun _ => .pure _) (.bind (ih.expression _) fun _ => .pure _)

theorem primary_succ (ih : Skirting fuel) : (Grammar.primary (fuel + 1)).Skirts := by
  rw [Grammar.primary]
  refine .bind (.gets _) fun place => .look fun found input hfound => ?_
  have htakes := advance_skirts hfound
  split
  · exact (htakes rfl).bind fun _ => .pure _
  · exact (htakes rfl).bind fun _ => .pure _
  · exact (htakes rfl).bind fun _ => .pure _
  · exact (htakes rfl).bind fun _ => .pure _
  · exact (htakes rfl).bind fun _ => .pure _
  · exact (htakes rfl).bind fun _ => .pure _
  · -- Nothing is asked of inputs with a function ahead.
    exact .of_forall _ (fun _ _ => .of_func hfound) (fun _ _ => .of_func hfound) trivial
  · refine (htakes rfl).bind fun _ => .bind (ih.expression _) fun _ => ?_
    refine .bind (.expectKeyword _) fun _ => .bind (ih.expression _) fun _ => ?_
    refine .bind ih.branches fun _ => .bind (.expectKeyword _) fun _ => ?_
    exact .bind (ih.expression _) fun _ => .pure _
  · exact (htakes rfl).bind fun _ => .bind (ih.expression _) fun _ =>
      .bind (.expectSymbol rfl) fun _ => .pure _
  · exact (htakes rfl).bind fun _ => ih.listOrRange _
  · exact (absorb_skirts hfound).bind fun _ => .pure _
  · exact Skirts.reject _ input

theorem listOrRange_succ (ih : Skirting fuel) (place : Position) :
    (Grammar.listOrRange (fuel + 1) place).Skirts := by
  rw [Grammar.listOrRange]
  refine .ifSymbol rfl (fun _ => .pure _) (.bind (ih.expression _) fun _ => ?_)
  refine .ifSymbol rfl (fun _ => .bind (ih.expression _) fun _ => ?_) (.bind ih.items fun _ => ?_)
  · exact .bind (.expectSymbol rfl) fun _ => .pure _
  · exact .bind (.expectSymbol rfl) fun _ => .pure _

theorem branches_succ (ih : Skirting fuel) : (Grammar.branches (fuel + 1)).Skirts := by
  rw [Grammar.branches]
  refine .ifKeyword (fun _ => .bind (ih.expression _) fun _ => ?_) (.pure _)
  refine .bind (.expectKeyword _) fun _ => .bind (ih.expression _) fun _ => ?_
  exact .bind ih.branches fun _ => .pure _

end Skirting

theorem skirting (fuel : Nat) : Skirting fuel := by
  induction fuel with
  | zero => constructor <;> intros <;> exact .exhausted
  | succ fuel ih =>
    exact {
      expression := ih.expression_succ
      joined := ih.joined_succ
      operands := ih.operands_succ
      unary := ih.unary_succ
      suffixed := ih.suffixed_succ
      arguments := ih.arguments_succ
      items := ih.items_succ
      arms := ih.arms_succ
      armPattern := ih.armPattern_succ
      primary := ih.primary_succ
      listOrRange := ih.listOrRange_succ
      branches := ih.branches_succ }

end Grammar

/-! ### Segments of a body -/

/-- Is this an error node? -/
def Stmt.isError : Stmt → Bool
  | .error _ _ => true
  | _ => false

/-- A part of the body of a function. -/
inductive Segment where
  /-- A well-formed statement, and what it is read as where it stands alone. -/
  | sound (row : List Lexeme) (statement : Stmt)
  /-- A malformed expression and a semicolon, which may be a `return` statement. -/
  | broken (returns : Bool) (words : List Lexeme)

namespace Segment

/-- The lexemes of a segment. -/
def lexemes : Segment → List Lexeme
  | sound row _ => row
  | broken returns words =>
    (if returns then [.keyword .returnWord] else []) ++ (words ++ [.symbol .semicolon])

/-- Is the segment malformed? -/
def isBroken : Segment → Bool
  | sound _ _ => false
  | broken _ _ => true

/-- Can a malformed segment have this lexeme? It is neither a semicolon, a brace, malformed
text or the end of the text, nor a word at which the parser goes on. -/
def isWord : Lexeme → Bool
  | .error _ | .endOfInput | .symbol .semicolon | .symbol .leftBrace => false
  | other => !Input.resumes other

/-- A well-formed segment is read without an error up to the closing brace after it. A
malformed one does not continue an `if` statement, and its expression cannot be read. -/
def Fits : Segment → Prop
  | sound row statement => ∃ fuel alone after, alone.Faces (row ++ [.symbol .rightBrace]) ∧
      Grammar.recovered fuel alone = .done statement after ∧ after.Faces [.symbol .rightBrace]
  | broken _ words => words ≠ [] ∧ (∀ word ∈ words, isWord word) ∧
      (words.headD .endOfInput).continuesIf = false ∧
      ∃ fuel alone error after, alone.Faces (words ++ [.symbol .semicolon]) ∧
        Grammar.expression fuel Grammar.assignLevel alone = .failed error after

/-- What a segment becomes: an error node if it is malformed, and otherwise what it is read as
where it stands alone. -/
def Yields (segment : Segment) (found : Stmt) : Prop :=
  found.isError = segment.isBroken ∧
    match segment with
    | sound _ statement => statement.Alike (fun _ _ => True) found
    | broken _ _ => True

theorem isWord_not {word : Lexeme} (h : isWord word) :
    word.isSymbol .semicolon = false ∧ Input.resumes word = false := by
  unfold isWord at h
  split at h
  · cases h
  · cases h
  · cases h
  · cases h
  · next hsemicolon _ =>
    refine ⟨Bool.eq_false_iff.2 fun hsymbol => ?_, by simpa using h⟩
    exact hsemicolon (Lexeme.isSymbol_iff.1 hsymbol)

end Segment

theorem Segment.broken_first {returns : Bool} {words : List Lexeme}
    (h : (Segment.broken returns words).Fits) :
    ∃ first more, (Segment.broken returns words).lexemes = first :: more ∧
      (∀ fault, first ≠ .error fault) ∧ Grammar.endsBlock first = false ∧
      first.continuesIf = false := by
  obtain ⟨hne, hwords, hstarts, _⟩ := h
  obtain ⟨word, more, rfl⟩ := List.exists_cons_of_ne_nil hne
  have hword := hwords word List.mem_cons_self
  cases returns with
  | true => exact ⟨_, _, rfl, fun _ => nofun, rfl, rfl⟩
  | false =>
    refine ⟨word, _, rfl, ?_, ?_, hstarts⟩
    · rintro fault rfl
      cases hword
    · rw [Bool.eq_false_iff]
      intro hends
      obtain hbrace | hend := Bool.or_eq_true_iff.1 hends
      · rw [Lexeme.isSymbol_iff.1 hbrace] at hword
        cases hword
      · cases word with
        | endOfInput => cases hword
        | _ => cases hend

/-- Nodes that are alike are both error nodes, or neither is. -/
theorem Stmt.Alike.isError {same : Position → Position → Prop} {statement statement' : Stmt} :
    statement.Alike same statement' → statement'.isError = statement.isError := by
  fun_cases Stmt.Alike same statement statement' with
  | case15 => exact False.elim
  | _ => exact fun _ => rfl

/-- The parser goes on after the next semicolon, if nothing before it makes it stop. -/
theorem Input.synchronize_words {input : Input} {words rest : List Lexeme}
    (hahead : input.lexemes = words ++ .symbol .semicolon :: rest)
    (hwords : ∀ word ∈ words, Segment.isWord word) : input.synchronize.lexemes = rest := by
  induction words generalizing input with
  | nil =>
    obtain ⟨hcurrent, hadvance, hne⟩ := Input.lexemes_cons hahead
    rw [synchronize_eq, hcurrent, if_neg (by simp [hne, resumes]), if_pos (by rfl)]
    exact hadvance
  | cons word words ih =>
    obtain ⟨hcurrent, hadvance, hne⟩ := Input.lexemes_cons hahead
    obtain ⟨hword, hwords⟩ := List.forall_mem_cons.1 hwords
    obtain ⟨hsemicolon, hresumes⟩ := Segment.isWord_not hword
    rw [synchronize_eq, hcurrent, if_neg (by simp [hne, hresumes]), if_neg (by simp [hsemicolon])]
    exact ih hadvance hwords

namespace Grammar

open Reading

/-- A malformed expression without functions is malformed wherever it stands, and the
semicolon after it is not taken. -/
theorem expression_words {words : List Lexeme} {fuel : Nat} {alone after : Input}
    {error : SyntaxError} (hwords : ∀ word ∈ words, Segment.isWord word)
    (halone : alone.Faces (words ++ [.symbol .semicolon]))
    (hrun : expression fuel assignLevel alone = .failed error after) (rest : List Lexeme)
    (fuel' : Nat) (input : Input) (hinput : input.lexemes = words ++ .symbol .semicolon :: rest) :
    (expression fuel' assignLevel input).Meets (fun _ _ => False)
      (fun _ final => ∃ left, left <:+ words ∧ final.lexemes = left ++ .symbol .semicolon :: rest)
      True := by
  have hnone : ∀ token ∈ alone.ahead, token.lexeme.isKeyword .funcWord = false := by
    intro token hmem
    have hmem' : token.lexeme ∈ words ++ [.symbol .semicolon] :=
      halone.ahead ▸ List.mem_map_of_mem hmem
    obtain hword | hsemicolon := List.mem_append.1 hmem'
    · rw [Bool.eq_false_iff]
      intro hfunc
      have hresumes := (Segment.isWord_not (hwords _ hword)).2
      rw [Lexeme.isKeyword_iff.1 hfunc] at hresumes
      cases hresumes
    · rw [List.mem_singleton.1 hsemicolon]
      rfl
  have hskirts := (skirting fuel).expression assignLevel alone
  unfold SkirtsAt at hskirts
  rw [hrun] at hskirts
  obtain ⟨passed, hpassed, hother⟩ := hskirts hnone
  have hsplit : words ++ [.symbol .semicolon] = passed.map Token.lexeme ++ after.lexemes := by
    rw [← halone.ahead, hpassed, List.map_append]
    rfl
  have hleft : ∃ left, left <:+ words ∧ after.lexemes = left ++ [.symbol .semicolon] := by
    obtain ⟨more, hmore, hrest⟩ | ⟨left, hleft, hafter⟩ := List.append_eq_append_iff.1 hsplit
    · -- The semicolon would have been taken.
      cases more with
      | nil => exact ⟨[], List.nil_suffix, hrest.symm⟩
      | cons first more =>
        have hfirst : Lexeme.symbol .semicolon = first := (List.cons.inj hrest).1
        have hmem : first ∈ passed.map Token.lexeme := by
          rw [hmore]
          exact List.mem_append_right _ List.mem_cons_self
        obtain ⟨token, htoken, hlexeme⟩ := List.mem_map.1 hmem
        have hsemicolon := hother token htoken
        rw [hlexeme, ← hfirst] at hsemicolon
        cases hsemicolon
    · exact ⟨left, ⟨_, hleft.symm⟩, hafter⟩
  obtain ⟨left, hsuffix, hafter⟩ := hleft
  have hne : after.ahead ≠ [] := by
    intro hnil
    rw [Input.lexemes, hnil] at hafter
    simp at hafter
  have hinput' : input.lexemes = words ++ [.symbol .semicolon] ++ rest := by
    rw [hinput, List.append_assoc]
    rfl
  refine (moves_failed (expression_local · assignLevel)
    (fun fuel => .of_keeps ((keeping _ (Nat.le_refl fuel)).expression assignLevel)) halone hrun
    hne fuel' input hinput').imp (fun _ _ => id) ?_ id
  intro _ final hfinal
  refine ⟨left, hsuffix, ?_⟩
  rw [hfinal, hafter, List.append_assoc]
  rfl

/-- A lexeme of a malformed expression starts no other statement. -/
theorem statement_word {input : Input} {fuel : Nat} {done : Stmt → Input → Prop}
    {failed : SyntaxError → Input → Prop} {cut : Prop}
    (hword : Segment.isWord input.current.lexeme)
    (h : (exprStatement fuel input).Meets done failed cut) :
    (statement (fuel + 1) input).Meets done failed cut := by
  rw [statement]
  refine (meets_position _).2 ((meets_lexeme _).2 fun found hfound => ?_)
  rw [hfound] at hword
  split
  · cases hword
  · cases hword
  · cases hword
  · cases hword
  · cases hword
  · cases hword
  · cases hword
  · cases hword
  · cases hword
  · cases hword
  · cases hword
  · cases hword
  · exact h

/-- A malformed segment fails as a statement, before its semicolon. -/
theorem statement_broken {returns : Bool} {words rest : List Lexeme}
    (h : (Segment.broken returns words).Fits) (fuel : Nat) (input : Input)
    (hinput : input.lexemes = (Segment.broken returns words).lexemes ++ rest) :
    (statement fuel input).Meets (fun _ _ => False)
      (fun _ middle => ∃ left, left <:+ words ∧
        middle.lexemes = left ++ .symbol .semicolon :: rest) True := by
  obtain ⟨hne, hwords, _, fuel₀, alone, error, after, halone, hrun⟩ := h
  obtain ⟨word, more, hcons⟩ := List.exists_cons_of_ne_nil hne
  have hword : Segment.isWord word := hwords word (hcons ▸ List.mem_cons_self)
  have hexpression := expression_words hwords halone hrun rest
  cases fuel with
  | zero => trivial
  | succ fuel =>
    cases returns with
    | false =>
      have hahead : input.lexemes = words ++ .symbol .semicolon :: rest := by
        rw [hinput]
        simp [Segment.lexemes]
      have hcurrent := (Input.lexemes_cons (hcons ▸ hahead)).1
      refine statement_word (hcurrent ▸ hword) ?_
      cases fuel with
      | zero => trivial
      | succ fuel =>
        rw [exprStatement, Action.meets_bind]
        exact (hexpression fuel input hahead).imp (fun _ _ => False.elim) (fun _ _ => id) id
    | true =>
      have hahead : input.lexemes =
          .keyword .returnWord :: (words ++ .symbol .semicolon :: rest) := by
        rw [hinput]
        simp [Segment.lexemes]
      obtain ⟨hcurrent, hadvance, _⟩ := Input.lexemes_cons hahead
      have hcurrent' := (Input.lexemes_cons (hcons ▸ hadvance)).1
      obtain ⟨hsemicolon, hresumes⟩ := Segment.isWord_not hword
      have hbrace : word.isSymbol .rightBrace = false := by
        rw [Bool.eq_false_iff]
        intro hbrace
        rw [Lexeme.isSymbol_iff.1 hbrace] at hresumes
        cases hresumes
      rw [statement]
      refine (meets_position _).2 ((meets_lexeme _).2 fun found hfound => ?_)
      rw [hcurrent] at hfound
      subst hfound
      simp only [advance, atSymbol, Action.meets_bind, Action.meets_update, Action.meets_gets,
        hcurrent', hsemicolon, hbrace, Bool.or_self, Bool.false_eq_true, if_false]
      exact (hexpression fuel input.advance hadvance).imp (fun _ _ => False.elim) (fun _ _ => id) id

/-- After a malformed expression the parser goes on behind its semicolon, even if it takes one
token more than the expression did. -/
theorem resume_words {middle : Input} {left rest : List Lexeme} {before : Nat}
    (hlexemes : middle.lexemes = left ++ .symbol .semicolon :: rest)
    (hwords : ∀ word ∈ left, Segment.isWord word) (hne : middle.taken = before → left ≠ [])
    (error : SyntaxError) :
    ((do
      Action.update fun input => input.report error
      if (← Action.gets Input.taken) = before then advance
      Action.update Input.synchronize
      return Stmt.error error.position error.fault : Reading Stmt) middle).Meets
      (fun found final => found.isError = true ∧ final.lexemes = rest) (fun _ _ => False) True := by
  simp only [Action.meets_bind, Action.meets_update, Action.meets_gets]
  by_cases htaken : (middle.report error).taken = before
  · rw [if_pos htaken]
    obtain ⟨first, more, rfl⟩ := List.exists_cons_of_ne_nil (hne htaken)
    have hreported : (middle.report error).lexemes =
      first :: (more ++ .symbol .semicolon :: rest) := hlexemes
    refine ⟨rfl, Input.synchronize_words (Input.lexemes_cons hreported).2.1 fun word hmem => ?_⟩
    exact hwords word (List.mem_cons_of_mem _ hmem)
  · rw [if_neg htaken]
    have hreported : (middle.report error).lexemes = left ++ .symbol .semicolon :: rest := hlexemes
    exact ⟨rfl, Input.synchronize_words hreported hwords⟩

/-- A malformed segment becomes an error node, and nothing after it is touched. -/
theorem recovered_broken {returns : Bool} {words rest : List Lexeme}
    (h : (Segment.broken returns words).Fits) (fuel : Nat) (input : Input)
    (hinput : input.lexemes = (Segment.broken returns words).lexemes ++ rest) :
    (recovered fuel input).Meets
      (fun found final => found.isError = true ∧ final.lexemes = rest ∧
        input.errors.size + 1 ≤ final.errors.size)
      (fun _ _ => False) True := by
  cases fuel with
  | zero => trivial
  | succ fuel =>
    obtain ⟨first, more, hcons, hfirst⟩ := Segment.broken_first h
    rw [recovered]
    refine (meets_position _).2 ((meets_lexeme _).2 fun found hfound => ?_)
    rw [(Input.lexemes_cons (hcons ▸ hinput)).1] at hfound
    split
    · next fault => exact (hfirst.1 fault hfound).elim
    · simp only [Action.meets_bind, Action.meets_gets, Action.meets_recover]
      refine ((statement_broken h fuel input hinput).and ((rules .any fuel).statement
        (Outlook.any_braces (.loose 0) input))).imp (fun _ _ hd => hd.1.elim) ?_ And.left
      rintro error middle ⟨⟨left, hsuffix, hleft⟩, _, hleads, _⟩
      have hwords : ∀ word ∈ left, Segment.isWord word := fun word hmem =>
        h.2.1 word (hsuffix.subset hmem)
      have hne : middle.taken = input.taken → left ≠ [] := by
        -- Nothing has been taken, so the whole segment is left.
        rintro htaken rfl
        have hlength := congrArg List.length (hleads.lexemes_eq htaken)
        rw [hleft, hinput, Segment.lexemes] at hlength
        have hpos := List.length_pos_iff.2 h.1
        simp only [List.length_append, List.length_cons, List.nil_append] at hlength
        omega
      have hresume := resume_words hleft hwords hne error
      have honward := resume_onward error input.taken (middle.report error)
      have hmiddle := hleads.errors.length_le
      rw [Action.meets_bind, Action.meets_update] at hresume
      refine (hresume.and honward).imp ?_ (fun _ _ hd => hd.1) And.left
      rintro found final ⟨⟨herror, hfinal⟩, hlater⟩
      have hgrown := hlater.errors.length_le
      simp only [Input.report, Array.toList_push, List.length_append, List.length_singleton,
        Array.length_toList] at hgrown hmiddle
      exact ⟨herror, hfinal, by omega⟩

/-! ### Rows of segments -/

/-- A statement that is read without an error is no error node. -/
theorem recovered_isError {fuel : Nat} {input after : Input} {statement : Stmt}
    (hrun : recovered fuel input = .done statement after) (hclean : after.errors = #[]) :
    statement.isError = false := by
  have hreads := (rules (.faults fun _ => False) fuel).recovered (fun h => nomatch h)
    (.of_none rfl (.loose 0) input)
  rw [hrun] at hreads
  have hnodes := hreads.1.known (by simp [hclean])
  cases statement with
  | error => exact hnodes.elim
  | _ => rfl

/-- How a segment starts. -/
theorem segment_first {segment : Segment} (h : segment.Fits) :
    ∃ first more, segment.lexemes = first :: more ∧ endsBlock first = false ∧
      first.continuesIf = false := by
  cases segment with
  | broken returns words =>
    obtain ⟨first, more, hcons, _, hstarts⟩ := Segment.broken_first h
    exact ⟨first, more, hcons, hstarts⟩
  | sound row statement =>
    obtain ⟨fuel, alone, after, halone, hrun, hafter⟩ := h
    have hgoes : ¬ (endsBlock alone.current.lexeme ∨ alone.current.lexeme.continuesIf) := by
      -- Otherwise an error would have been recorded.
      intro hstuck
      have hmeets := recovered_stuck fuel hstuck
      rw [hrun] at hmeets
      exact hmeets (hafter.errors.trans halone.errors.symm)
    rw [halone.current] at hgoes
    cases row with
    | nil => exact (hgoes (.inl rfl)).elim
    | cons first more =>
      simp only [not_or, Bool.not_eq_true] at hgoes
      exact ⟨first, more, rfl, hgoes⟩

/-- A segment becomes what it should, wherever it stands. -/
theorem recovered_segment {segment : Segment} (h : segment.Fits) {rest : List Lexeme}
    (hrest : (rest.headD .endOfInput).continuesIf = false) (fuel : Nat) (input : Input)
    (hinput : input.lexemes = segment.lexemes ++ rest) :
    (recovered fuel input).Meets
      (fun found final => segment.Yields found ∧ final.lexemes = rest ∧
        input.errors.size + segment.isBroken.toNat ≤ final.errors.size ∧
        (segment.isBroken = false → final.errors = input.errors))
      (fun _ _ => False) True := by
  cases segment with
  | broken returns words =>
    refine (recovered_broken h fuel input hinput).imp ?_ (fun _ _ => id) id
    rintro found final ⟨herror, hfinal, herrors⟩
    exact ⟨⟨herror, trivial⟩, hfinal, herrors, nofun⟩
  | sound row statement =>
    obtain ⟨fuel₀, alone, after, halone, hrun, hafter⟩ := h
    refine (recovered_moves halone hrun hafter rfl hrest fuel input hinput).imp ?_
      (fun _ _ => id) id
    rintro found final ⟨halike, hfinal, herrors⟩
    have herror := halike.isError.trans (recovered_isError hrun hafter.errors)
    exact ⟨⟨herror, halike⟩, hfinal, by simp [Segment.isBroken, herrors], fun _ => herrors⟩

/-- What follows a segment starts like a segment, or is the closing brace. -/
theorem segments_first {segments : List Segment} (h : ∀ segment ∈ segments, segment.Fits)
    (rest : List Lexeme) :
    ((segments.flatMap Segment.lexemes ++ .symbol .rightBrace :: rest).headD
      .endOfInput).continuesIf = false := by
  cases segments with
  | nil => rfl
  | cons segment segments =>
    obtain ⟨first, more, hcons, _, hstarts⟩ := segment_first (h segment List.mem_cons_self)
    rw [List.flatMap_cons, hcons]
    exact hstarts

/-- From `input` on, the statements `found` have been read from the segments, and `rest` is
still ahead. -/
structure SegmentsRead (segments : List Segment) (rest : List Lexeme) (input : Input)
    (found : List Stmt) (final : Input) : Prop where
  yields : List.Forall₂ Segment.Yields segments found
  ahead : final.lexemes = rest
  errors : input.errors.size + segments.countP Segment.isBroken ≤ final.errors.size
  clean : segments.countP Segment.isBroken = 0 → final.errors = input.errors

/-- What is read without an error before and after the segments adds none. -/
theorem SegmentsRead.extend {segments : List Segment} {rest rest' : List Lexeme}
    {input middle after final : Input} {found : List Stmt}
    (h : SegmentsRead segments rest middle found after) (hbefore : middle.errors = input.errors)
    (hafter : final.errors = after.errors) (hahead : final.lexemes = rest') :
    SegmentsRead segments rest' input found final where
  yields := h.yields
  ahead := hahead
  errors := by
    rw [hafter, ← hbefore]
    exact h.errors
  clean hnone := by rw [hafter, h.clean hnone, hbefore]

/-- The statements of a body are those of its segments, one by one. -/
theorem statements_segments {segments : List Segment} (h : ∀ segment ∈ segments, segment.Fits)
    (rest : List Lexeme) (fuel : Nat) (input : Input)
    (hinput : input.lexemes = segments.flatMap Segment.lexemes ++ .symbol .rightBrace :: rest) :
    (statements fuel endsBlock input).Meets
      (SegmentsRead segments (.symbol .rightBrace :: rest) input) (fun _ _ => False) True := by
  induction segments generalizing fuel input with
  | nil =>
    cases fuel with
    | zero => trivial
    | succ fuel =>
      rw [statements]
      refine (meets_lexeme _).2 fun found hfound => ?_
      rw [(Input.lexemes_cons hinput).1] at hfound
      subst hfound
      exact ⟨.nil, hinput, Nat.le_refl _, fun _ => rfl⟩
  | cons segment segments ih =>
    obtain ⟨hsegment, hsegments⟩ := List.forall_mem_cons.1 h
    cases fuel with
    | zero => trivial
    | succ fuel =>
      rw [List.flatMap_cons, List.append_assoc] at hinput
      obtain ⟨first, more, hcons, hends, _⟩ := segment_first hsegment
      rw [statements]
      refine (meets_lexeme _).2 fun found hfound => ?_
      rw [(Input.lexemes_cons (hcons ▸ hinput)).1] at hfound
      subst hfound
      rw [hends, if_neg Bool.false_ne_true, Action.meets_bind]
      refine (recovered_segment hsegment (segments_first hsegments rest) fuel input hinput).imp ?_
        (fun _ _ => id) id
      rintro found middle ⟨hyields, hmiddle, hsize, hclean⟩
      rw [Action.meets_bind]
      refine (ih hsegments fuel middle hmiddle).imp ?_ (fun _ _ => id) id
      intro others final hothers
      refine ⟨.cons hyields hothers.yields, hothers.ahead, ?_, ?_⟩
      · have hsize' := hothers.errors
        rw [List.countP_cons]
        cases hbroken : segment.isBroken <;> simp [hbroken] at hsize ⊢ <;> omega
      · intro hnone
        rw [List.countP_cons, Nat.add_eq_zero_iff] at hnone
        rw [hothers.clean hnone.1, hclean (by simpa using hnone.2)]

/-- A body that consists of segments. -/
theorem block_segments {segments : List Segment} (h : ∀ segment ∈ segments, segment.Fits)
    (rest : List Lexeme) (fuel : Nat) (input : Input)
    (hinput : input.lexemes = .symbol .leftBrace ::
      (segments.flatMap Segment.lexemes ++ .symbol .rightBrace :: rest)) :
    (block fuel input).Meets (SegmentsRead segments rest input) (fun _ _ => False) True := by
  cases fuel with
  | zero => trivial
  | succ fuel =>
    rw [block]
    refine Takes.advance.andThen .advance hinput fun _ middle _ hmiddle herrors => ?_
    rw [Action.meets_bind]
    refine (statements_segments h rest fuel middle hmiddle).imp ?_ (fun _ _ => id) id
    intro found after hread
    refine (Takes.expectSymbol _).andThen (.expectSymbol _) hread.ahead ?_
    intro _ final _ hfinal herrors'
    exact hread.extend herrors herrors' hfinal

theorem function_segments {segments : List Segment} (h : ∀ segment ∈ segments, segment.Fits)
    (place : Position) (name : Option String) (listed : List String) (rest : List Lexeme)
    (fuel : Nat) (input : Input)
    (hinput : input.lexemes = .symbol .leftParen :: (namesLexemes listed ++
      .symbol .rightParen :: .symbol .leftBrace ::
        (segments.flatMap Segment.lexemes ++ .symbol .rightBrace :: rest))) :
    (function fuel place name input).Meets
      (fun found final => found.head = (name, listed) ∧
        ∃ body, found.body = .block body ∧ SegmentsRead segments rest input body final)
      (fun _ _ => False) True := by
  cases fuel with
  | zero => trivial
  | succ fuel =>
    rw [function]
    refine (parameters_takes listed).andThen (parameters_local (Nat.le_refl fuel)) hinput ?_
    rintro _ input₁ rfl hinput₁ herrors₁
    refine (Takes.atSymbol _).andThen (.atSymbol _) hinput₁ ?_
    rintro _ input₂ rfl hinput₂ herrors₂
    rw [if_pos (by rfl), Action.meets_bind]
    refine (block_segments h rest fuel input₂ hinput₂).imp ?_ (fun _ _ => id) id
    intro body final hread
    exact ⟨rfl, body, rfl, hread.extend (herrors₂.trans herrors₁) rfl hread.ahead⟩

/-- A function whose body consists of segments. -/
theorem definition_segments {segments : List Segment} (h : ∀ segment ∈ segments, segment.Fits)
    (name : String) (listed : List String) (fuel : Nat) (input : Input)
    (hinput : input.lexemes =
      (Definition.mk name listed (segments.flatMap Segment.lexemes)).lexemes) :
    (definition fuel input).Meets
      (fun found final => found.head = (some name, listed) ∧
        ∃ body, found.body = .block body ∧ SegmentsRead segments [] input body final)
      (fun _ _ => False) True := by
  cases fuel with
  | zero => trivial
  | succ fuel =>
    rw [definition]
    refine Takes.position.andThen .position hinput fun place input₁ _ hinput₁ herrors₁ => ?_
    refine Takes.advance.andThen .advance hinput₁ fun _ input₂ _ hinput₂ herrors₂ => ?_
    refine (Takes.expectName _).andThen (.expectName _) hinput₂ ?_
    rintro _ input₃ rfl hinput₃ herrors₃
    refine (function_segments h place _ listed [] fuel input₃ hinput₃).imp ?_ (fun _ _ => id) id
    rintro found final ⟨hhead, body, hbody, hread⟩
    have herrors := (herrors₃.trans herrors₂).trans herrors₁
    exact ⟨hhead, body, hbody, hread.extend herrors rfl hread.ahead⟩

/-- A text that consists of such a function. -/
theorem functions_segments {segments : List Segment} (h : ∀ segment ∈ segments, segment.Fits)
    (name : String) (listed : List String) (fuel : Nat) (input : Input)
    (hinput : input.lexemes =
      (Definition.mk name listed (segments.flatMap Segment.lexemes)).lexemes) :
    (functions fuel input).Meets
      (fun found final => ∃ declaration body, found = [declaration] ∧
        declaration.head = (some name, listed) ∧ declaration.body = .block body ∧
          SegmentsRead segments [] input body final)
      (fun _ _ => False) True := by
  cases fuel with
  | zero => trivial
  | succ fuel =>
    refine functions_kept (Input.lexemes_cons hinput).1
      (definition_segments h name listed fuel input hinput) ?_
    rintro declaration middle ⟨hhead, body, hbody, hread⟩
    have hend : middle.current.lexeme = .endOfInput := by
      rw [Input.current_lexeme, hread.ahead]
      rfl
    refine (functions_nothing hend).imp ?_ (fun _ _ => id) id
    rintro _ _ ⟨rfl, rfl⟩
    exact ⟨declaration, body, rfl, hhead, hbody, hread⟩

end Grammar

/-- Malformed statements do not disturb the others. In a text that consists of one function,
whose body is a row of well-formed and of malformed statements, the function has one statement
for each of them. Those for malformed ones are error nodes, the others are what is read where
they stand alone. Each malformed statement has an error, and without one there is none. -/
theorem errors_stay_in_statements (source : Source) (name : String) (listed : List String)
    (segments : List Segment)
    (htext : (tokenize source.text).map Token.lexeme =
      (Definition.mk name listed (segments.flatMap Segment.lexemes)).lexemes ++ [.endOfInput])
    (hfits : ∀ segment ∈ segments, segment.Fits) :
    ∃ declaration body, source.parse.program = ⟨[], [declaration]⟩ ∧
      declaration.head = (some name, listed) ∧ declaration.body = .block body ∧
      List.Forall₂ Segment.Yields segments body ∧
      segments.countP Segment.isBroken ≤ source.parse.errors.length ∧
      (segments.countP Segment.isBroken = 0 → source.parse.errors = []) := by
  have hinput := Source.input_lexemes htext
  have hglobal : source.input.current.lexeme.isKeyword .globalWord = false := by
    rw [(Input.lexemes_cons hinput).1]
    rfl
  obtain ⟨fuel, _, final, hrun, hparse⟩ := source.functions_done hglobal
  have hmeets := Grammar.functions_segments hfits name listed fuel source.input hinput
  rw [hrun] at hmeets
  obtain ⟨declaration, body, rfl, hhead, hbody, hread⟩ := hmeets
  have hnone : source.input.errors = #[] := rfl
  have herrors := hread.errors
  have hclean := hread.clean
  rw [hnone] at herrors hclean
  rw [hparse]
  refine ⟨declaration, body, rfl, hhead, hbody, hread.yields, ?_, ?_⟩
  · simpa using herrors
  · simpa using hclean

/-- The state of the parser before some lexemes and nothing else. -/
def Input.ofLexemes (lexemes : List Lexeme) : Input where
  ahead := lexemes.map (Token.mk · .start)
  finish := .start
  taken := 0
  errors := #[]
  source := 0

theorem Input.ofLexemes_faces (lexemes : List Lexeme) :
    (Input.ofLexemes lexemes).Faces lexemes where
  ahead := by simp [Input.ofLexemes, Function.comp_def]
  errors := rfl

/-- A well-formed statement is found by reading it. -/
theorem Segment.sound_fits {row : List Lexeme} {statement : Stmt} {after : Input} (fuel : Nat)
    (hrun : Grammar.recovered fuel (.ofLexemes (row ++ [.symbol .rightBrace])) =
      .done statement after)
    (hafter : after.Faces [.symbol .rightBrace]) : (Segment.sound row statement).Fits :=
  ⟨fuel, _, after, Input.ofLexemes_faces _, hrun, hafter⟩

/-- A text of one function, in which well-formed and malformed statements alternate. -/
def Source.alternating : Source :=
  .ofText "func main() \x7b x = y; return ) z; if (a) \x7b b; \x7d ( + ; \x7d"

/-- The statements of the text. -/
def Segment.alternating : List Segment :=
  [.sound [.identifier "x", .symbol .assign, .identifier "y", .symbol .semicolon]
      (.expr (.assign .start (.name .start "x") none (.name .start "y"))),
    .broken true [.symbol .rightParen, .identifier "z"],
    .sound [.keyword .ifWord, .symbol .leftParen, .identifier "a", .symbol .rightParen,
        .symbol .leftBrace, .identifier "b", .symbol .semicolon, .symbol .rightBrace]
      (.branch (.name .start "a") (.block [.expr (.name .start "b")]) [] none),
    .broken false [.symbol .leftParen, .symbol .plus]]

theorem Segment.alternating_fits : ∀ segment ∈ Segment.alternating, segment.Fits := by
  have hword : (Segment.broken true [.symbol .rightParen, .identifier "z"]).Fits :=
    ⟨nofun, by decide, rfl, 20, _, _, _, Input.ofLexemes_faces _, rfl⟩
  have hsign : (Segment.broken false [.symbol .leftParen, .symbol .plus]).Fits :=
    ⟨nofun, by decide, rfl, 20, _, _, _, Input.ofLexemes_faces _, rfl⟩
  simp only [Segment.alternating, List.forall_mem_cons]
  exact ⟨sound_fits 20 rfl ⟨rfl, rfl⟩, hword, sound_fits 20 rfl ⟨rfl, rfl⟩, hsign, nofun⟩

theorem errors_stay_in_statements_alternating :
    ((tokenize Source.alternating.text).map Token.lexeme =
        (Definition.mk "main" [] (Segment.alternating.flatMap Segment.lexemes)).lexemes ++
          [.endOfInput] ∧
      ∀ segment ∈ Segment.alternating, segment.Fits) ∧
    ∃ declaration body, Source.alternating.parse.program = ⟨[], [declaration]⟩ ∧
      declaration.head = (some "main", []) ∧ declaration.body = .block body ∧
      List.Forall₂ Segment.Yields Segment.alternating body ∧
      2 ≤ Source.alternating.parse.errors.length := by
  have htext : (tokenize Source.alternating.text).map Token.lexeme =
      (Definition.mk "main" [] (Segment.alternating.flatMap Segment.lexemes)).lexemes ++
        [.endOfInput] := rfl
  obtain ⟨declaration, body, hprogram, hhead, hbody, hyields, herrors, _⟩ :=
    errors_stay_in_statements _ _ _ _ htext Segment.alternating_fits
  exact ⟨⟨htext, Segment.alternating_fits⟩, declaration, body, hprogram, hhead, hbody, hyields,
    herrors⟩

end Betty
