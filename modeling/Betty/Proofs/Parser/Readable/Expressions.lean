import Betty.Proofs.Parser.Takes
import Betty.Proofs.Program.Printed

/-!
# Reading printed expressions

The lexemes of a printed tree are read back as that tree, up to positions, and no
lexeme after them is touched. What may come after them is part of each statement below:
no call may follow an expression, no `else` an `if` statement that has none.

The rules of the grammar use each other, so each of them is treated for more fuel, from
what all of them do with less.

## Main definitions

* `Readable`: all rules read what is printed for them.
-/

namespace Betty

variable {bare : Bool} {numeral : Float → List Char}

namespace Grammar

open Reading

/-! ### The ends of expressions -/

theorem suffixed_stop {fuel : Nat} {expr : Expr} {rest : List Lexeme} {made : Expr → Prop}
    (h : (rest.headD .endOfInput).endsOperand) (hmade : made expr) :
    (suffixed fuel expr).Takes rest rest made := by
  cases fuel with
  | zero => exact .exhausted
  | succ fuel =>
    rw [suffixed]
    refine .look ?_
    generalize rest.headD .endOfInput = first at h
    split
    · cases h
    · cases h
    · cases h
    · cases h
    · cases h
    · exact .pure hmade

theorem joined_stopAt {fuel least : Nat} {left : Expr} {rest : List Lexeme} {made : Expr → Prop}
    (h : (rest.headD .endOfInput).endsAt least) (hmade : made left) :
    (joined fuel least left).Takes rest rest made := by
  cases fuel with
  | zero => exact .exhausted
  | succ fuel =>
    rw [joined]
    refine .look ?_
    generalize rest.headD .endOfInput = first at h
    split
    · next sign =>
      simp only [Lexeme.endsAt, Bool.and_eq_true, Option.all_eq_true] at h
      split
      · next joint hjoint =>
        rw [if_pos (h.2 joint hjoint)]
        exact .pure hmade
      · exact .pure hmade
    · exact .pure hmade

theorem joined_stop {fuel least : Nat} {left : Expr} {rest : List Lexeme} {made : Expr → Prop}
    (h : (rest.headD .endOfInput).endsExpr) (hmade : made left) :
    (joined fuel least left).Takes rest rest made :=
  joined_stopAt (Lexeme.endsAt_of_endsExpr h least) hmade

/-- An operand that no operator stands before. -/
theorem unary_of_primary {fuel : Nat} {before after : List Lexeme} {made : Expr → Prop}
    (hsign : ∀ sign, before.headD .endOfInput = .symbol sign → leadingOp? sign = none)
    (h : (do
      let operand ← primary fuel
      suffixed fuel operand : Reading Expr).Takes before after made) :
    (unary (fuel + 1)).Takes before after made := by
  rw [unary]
  refine .seq .position fun _ => .look ?_
  split
  · next sign hfirst =>
    rw [hsign sign hfirst]
    exact h
  · exact h

theorem leadingOp?_of_startsOperand {first : Lexeme} (h : first.startsOperand) (sign : Symbol)
    (hsign : first = .symbol sign) : leadingOp? sign = none := by
  subst hsign
  revert h
  cases sign <;> decide

/-! ### Rules -/

/-- Does the printed form of an expression start with all that the rule `primary` reads? -/
def isPrimary : Expr → Bool
  | .number _ _ | .text _ _ | .character _ _ | .boolean _ _ | .name _ _ | .list _ _
  | .function _ _ | .choose _ _ _ _ _ => true
  | _ => false

/-- Is this an operand with a joint and further operands after it? -/
def isJoint : Expr → Bool
  | .assign _ _ _ _ | .ternary _ _ _ _ | .binary _ _ _ _ => true
  | _ => false

/-- The rules read what is printed for them, with the given fuel. -/
structure Readable (bare : Bool) (numeral : Float → List Char) (fuel : Nat) : Prop where
  primaryOperand : ∀ {e : Expr} {rest : List Lexeme}, e.Everywhere (normalNodes numeral) →
    (primary fuel).Takes (e.operand bare ++ rest) rest (·.unplaced = e.unplaced)
  primaryForm : ∀ {e : Expr} {rest : List Lexeme}, e.Everywhere (normalNodes numeral) →
    isPrimary e → (rest.headD .endOfInput).endsExpr →
    (primary fuel).Takes (e.lexemes bare ++ rest) rest (·.unplaced = e.unplaced)
  suffixed : ∀ {whole base found : Expr} {tail rest : List Lexeme},
    SuffixForm bare whole base tail → whole.Everywhere (normalNodes numeral) →
    found.unplaced = base.unplaced →
    (rest.headD .endOfInput).endsOperand →
    (suffixed fuel found).Takes (tail ++ rest) rest (·.unplaced = whole.unplaced)
  unaryOperand : ∀ {e : Expr} {rest : List Lexeme}, e.Everywhere (normalNodes numeral) →
    (rest.headD .endOfInput).endsOperand →
    (unary fuel).Takes (e.operand bare ++ rest) rest (·.unplaced = e.unplaced)
  unaryForm : ∀ {e : Expr} {rest : List Lexeme}, e.Everywhere (normalNodes numeral) →
    isJoint e = false → (rest.headD .endOfInput).endsExpr →
    (unary fuel).Takes (e.lexemes bare ++ rest) rest (·.unplaced = e.unplaced)
  operands : ∀ {whole left found : Expr} {sign : Symbol} {joint : Joint} {tail rest : List Lexeme},
    JointForm bare whole left sign joint tail → whole.Everywhere (normalNodes numeral) →
    found.unplaced = left.unplaced → (rest.headD .endOfInput).endsExpr →
    (operands fuel found joint).Takes (tail ++ rest) rest (·.unplaced = whole.unplaced)
  joined : ∀ {whole left found : Expr} {sign : Symbol} {joint : Joint} {tail rest : List Lexeme},
    JointForm bare whole left sign joint tail → whole.Everywhere (normalNodes numeral) →
    found.unplaced = left.unplaced → (rest.headD .endOfInput).endsExpr →
    (joined fuel assignLevel found).Takes (.symbol sign :: (tail ++ rest)) rest
      (·.unplaced = whole.unplaced)
  exprOperand : ∀ {e : Expr} {rest : List Lexeme} (least : Nat),
    e.Everywhere (normalNodes numeral) → (rest.headD .endOfInput).endsExpr →
    (expression fuel least).Takes (e.operand bare ++ rest) rest (·.unplaced = e.unplaced)
  exprForm : ∀ {e : Expr} {rest : List Lexeme}, e.Everywhere (normalNodes numeral) →
    (rest.headD .endOfInput).endsExpr →
    (expression fuel assignLevel).Takes (e.lexemes bare ++ rest) rest (·.unplaced = e.unplaced)
  items : ∀ {es : List Expr} {rest : List Lexeme}, Expr.EverywhereAll (normalNodes numeral) es →
    (rest.headD .endOfInput).endsExpr → (rest.headD .endOfInput).isSymbol .comma = false →
    (items fuel).Takes (Expr.lexemesMore bare es ++ rest) rest
      (Expr.unplacedAll · = Expr.unplacedAll es)
  arguments : ∀ {es : List Expr} {rest : List Lexeme}, Expr.EverywhereAll (normalNodes numeral) es →
    (arguments fuel).Takes (Expr.lexemesRow bare es ++ .symbol .rightParen :: rest) rest
      (Expr.unplacedAll · = Expr.unplacedAll es)
  listOrRange : ∀ {es : List Expr} {rest : List Lexeme} (place : Position),
    Expr.EverywhereAll (normalNodes numeral) es →
    (listOrRange fuel place).Takes (Expr.lexemesRow bare es ++ .symbol .rightBracket :: rest) rest
      (·.unplaced = .list .unknown (Expr.unplacedAll es))
  armPattern : ∀ {pattern : Option Expr} {rest : List Lexeme},
    Expr.EverywhereOption (normalNodes numeral) pattern → (rest.headD .endOfInput).endsExpr →
    (armPattern fuel).Takes (Expr.lexemesPattern bare pattern ++ rest) rest
      (Expr.unplacedOption · = Expr.unplacedOption pattern)
  arms : ∀ {arms : List Arm} {rest : List Lexeme},
    Arm.EverywhereAll (normalNodes numeral) arms → wildcardLast (arms.map Arm.pattern) →
    (Grammar.arms fuel false).Takes (Arm.lexemesRow bare arms ++ .symbol .rightBrace :: rest)
      (.symbol .rightBrace :: rest) (Arm.unplacedAll · = Arm.unplacedAll arms)
  branches : ∀ {branches : List Branch} {rest : List Lexeme},
    Branch.EverywhereAll (normalNodes numeral) branches → (rest.headD .endOfInput).endsExpr →
    (rest.headD .endOfInput).isKeyword .elifWord = false →
    (Grammar.branches fuel).Takes (Branch.lexemesAll bare branches ++ rest) rest
      (Branch.unplacedAll · = Branch.unplacedAll branches)
  function : ∀ {declaration : Declaration} {rest : List Lexeme} (place : Position),
    declaration.HasHead → declaration.Everywhere (normalNodes numeral) →
    (function fuel place declaration.name).Takes (.symbol .leftParen ::
      (namesLexemes declaration.parameters ++ .symbol .rightParen ::
        (declaration.body.lexemes bare ++ rest))) rest (·.unplaced = declaration.unplaced)
  block : ∀ {body : List Stmt} {rest : List Lexeme}, Stmt.EverywhereAll (normalNodes numeral) body →
    (block fuel).Takes
      (.symbol .leftBrace :: (Stmt.lexemesAll bare body ++ .symbol .rightBrace :: rest)) rest
      (Stmt.unplacedAll · = Stmt.unplacedAll body)
  statements : ∀ {body : List Stmt} {rest : List Lexeme} {ends : Lexeme → Bool},
    Stmt.EverywhereAll (normalNodes numeral) body →
    (∀ {lexeme : Lexeme}, lexeme.startsStmt → ends lexeme = false) →
    ends (rest.headD .endOfInput) → (rest.headD .endOfInput).continuesIf = false →
    (statements fuel ends).Takes (Stmt.lexemesAll bare body ++ rest) rest
      (Stmt.unplacedAll · = Stmt.unplacedAll body)
  recovered : ∀ {s : Stmt} {rest : List Lexeme}, s.Everywhere (normalNodes numeral) →
    (s.endsOpen → (rest.headD .endOfInput).continuesIf = false) →
    (recovered fuel).Takes (s.lexemes bare ++ rest) rest (·.unplaced = s.unplaced)
  statement : ∀ {s : Stmt} {rest : List Lexeme}, s.Everywhere (normalNodes numeral) →
    (s.endsOpen → (rest.headD .endOfInput).continuesIf = false) →
    (statement fuel).Takes (s.lexemes bare ++ rest) rest (·.unplaced = s.unplaced)
  exprStatement : ∀ {e : Expr} {rest : List Lexeme}, e.Everywhere (normalNodes numeral) →
    (exprStatement fuel).Takes (e.whole bare ++ .symbol .semicolon :: rest) rest
      (·.unplaced = .expr e.unplaced)
  definition : ∀ {declaration : Declaration} {rest : List Lexeme}, declaration.IsNamed →
    declaration.HasHead → declaration.Everywhere (normalNodes numeral) →
    (definition fuel).Takes (.keyword .funcWord :: (declaration.lexemes bare ++ rest)) rest
      (·.unplaced = declaration.unplaced)
  condition : ∀ {e : Expr} {rest : List Lexeme}, e.Everywhere (normalNodes numeral) →
    (condition fuel).Takes
      (.symbol .leftParen :: (e.whole bare ++ .symbol .rightParen :: rest)) rest
      (·.unplaced = e.unplaced)
  optional : ∀ {e : Option Expr} {rest : List Lexeme} (sign : Symbol),
    Expr.EverywhereOption (normalNodes numeral) e → (Lexeme.symbol sign).endsExpr →
    (Lexeme.symbol sign).startsExpr = false →
    (optional fuel sign).Takes (Expr.lexemesOption bare e ++ .symbol sign :: rest)
      (.symbol sign :: rest) (Expr.unplacedOption · = Expr.unplacedOption e)
  clauses : ∀ {clauses : List Clause} {rest : List Lexeme} (hasElse : Bool),
    Clause.EverywhereAll (normalNodes numeral) clauses →
    bodiesClosed hasElse (clauses.map Clause.body) →
    (rest.headD .endOfInput).isKeyword .elifWord = false →
    (hasElse = false → (rest.headD .endOfInput).continuesIf = false) →
    (Grammar.clauses fuel).Takes (Clause.lexemesAll bare clauses ++ rest) rest
      (Clause.unplacedAll · = Clause.unplacedAll clauses)
  cases : ∀ {cases : List Case} {rest : List Lexeme},
    Case.EverywhereAll (normalNodes numeral) cases → wildcardLast (cases.map Case.pattern) →
    (Grammar.cases fuel false).Takes (Case.lexemesAll bare cases ++ .symbol .rightBrace :: rest)
      (.symbol .rightBrace :: rest) (Case.unplacedAll · = Case.unplacedAll cases)
  caseBody : ∀ {body : List Stmt} {rest : List Lexeme} (pattern : Option Expr),
    Stmt.EverywhereAll (normalNodes numeral) body → endsCase (rest.headD .endOfInput) →
    (rest.headD .endOfInput).continuesIf = false →
    (caseBody fuel pattern).Takes (.symbol .colon :: (Stmt.lexemesAll bare body ++ rest)) rest
      fun found => found.pattern = pattern ∧ Stmt.unplacedAll found.body = Stmt.unplacedAll body

variable {fuel : Nat} {rest : List Lexeme}

/-! ### Operands -/

theorem primaryOperand_takes (ih : Readable bare numeral fuel) {e : Expr}
    (h : e.Everywhere (normalNodes numeral)) :
    (primary (fuel + 1)).Takes (e.operand bare ++ rest) rest (·.unplaced = e.unplaced) := by
  unfold Expr.operand Expr.inside
  split
  · next hatom =>
    cases e with
    | number | text | character | name =>
      rw [primary]
      exact .seq .position fun _ => .look (.seq .advance fun _ => .pure rfl)
    | boolean _ value =>
      rw [primary]
      cases value <;> exact .seq .position fun _ => .look (.seq .advance fun _ => .pure rfl)
    | _ => cases hatom
  · simp only [List.cons_append, List.append_assoc, List.nil_append]
    rw [primary]
    refine .seq .position fun _ => .look (.seq .advance fun _ => ?_)
    refine .bind (ih.exprForm h rfl) fun inner hinner => ?_
    exact .seq (.expectSymbol _) fun _ => .pure hinner

theorem primaryForm_takes (ih : Readable bare numeral fuel) {e : Expr}
    (h : e.Everywhere (normalNodes numeral)) (hform : isPrimary e)
    (hrest : (rest.headD .endOfInput).endsExpr) :
    (primary (fuel + 1)).Takes (e.lexemes bare ++ rest) rest (·.unplaced = e.unplaced) := by
  cases e with
  | number | text | character | name | boolean => exact primaryOperand_takes ih h
  | list _ items =>
    simp only [Expr.lexemes, List.cons_append, List.append_assoc, List.nil_append]
    rw [primary]
    exact .seq .position fun place => .look (.seq .advance fun _ => ih.listOrRange place h.2)
  | function _ declaration =>
    obtain ⟨⟨hname, hhead⟩, hbody⟩ := h
    simp only [Expr.lexemes, Declaration.lexemes_eq, hname, Option.map_none, Option.toList_none,
      List.cons_append, List.append_assoc, List.nil_append]
    rw [primary]
    refine .seq .position fun place => .look (.seq .advance fun _ => ?_)
    rw [← hname]
    refine .bind (ih.function place hhead hbody) fun found hfound => .pure ?_
    simp only [Expr.unplaced, hfound]
  | choose _ condition yes branches otherwise =>
    obtain ⟨_, hcondition, hyes, hbranches, hotherwise⟩ := h
    simp only [Expr.lexemes, List.cons_append, List.append_assoc]
    rw [primary]
    refine .seq .position fun place => .look (.seq .advance fun _ => ?_)
    refine .bind (ih.exprOperand assignLevel hcondition rfl) fun test htest => ?_
    refine .seq (.expectKeyword _) fun _ => ?_
    refine .bind (ih.exprOperand assignLevel hyes (Branch.lexemesAll_ends rfl))
      fun first hfirst => ?_
    refine .bind (ih.branches hbranches rfl rfl) fun found hfound => ?_
    refine .seq (.expectKeyword _) fun _ => ?_
    -- The last branch has no end of its own, so it ends where the whole does.
    refine .bind (ih.exprOperand assignLevel hotherwise hrest) fun last hlast => .pure ?_
    simp only [Expr.unplaced, htest, hfirst, hfound, hlast]
  | _ => cases hform

theorem suffixed_takes (ih : Readable bare numeral fuel) {whole base found : Expr}
    {tail : List Lexeme} (hform : SuffixForm bare whole base tail)
    (h : whole.Everywhere (normalNodes numeral)) (hfound : found.unplaced = base.unplaced)
    (hrest : (rest.headD .endOfInput).endsOperand) :
    (suffixed (fuel + 1) found).Takes (tail ++ rest) rest (·.unplaced = whole.unplaced) := by
  rw [suffixed]
  cases hform with
  | call p arguments =>
    simp only [List.cons_append, List.append_assoc, List.nil_append]
    refine .look (.seq .advance fun _ => ?_)
    refine .bind (ih.arguments h.2.2) fun values hvalues => ?_
    refine suffixed_stop hrest ?_
    simp only [Expr.unplaced, calleeOf_unplaced, hfound, hvalues]
  | index p index =>
    simp only [List.cons_append, List.append_assoc, List.nil_append]
    refine .look (.seq .advance fun _ => ?_)
    refine .bind (ih.exprOperand assignLevel h.2.2 rfl) fun place hplace => ?_
    refine .seq (.expectSymbol _) fun _ => suffixed_stop hrest ?_
    simp only [Expr.unplaced, hfound, hplace]
  | increment p =>
    refine .look (.seq .advance fun _ => suffixed_stop hrest ?_)
    simp only [Expr.unplaced, hfound]
  | decrement p =>
    refine .look (.seq .advance fun _ => suffixed_stop hrest ?_)
    simp only [Expr.unplaced, hfound]
  | switch p arms =>
    simp only [List.cons_append, List.append_assoc, List.nil_append]
    refine .look (.seq .advance fun _ => .seq (.expectSymbol _) fun _ => ?_)
    refine .bind (ih.arms h.2.2 h.1) fun values hvalues => ?_
    refine .seq (.expectSymbol _) fun _ => suffixed_stop hrest ?_
    simp only [Expr.unplaced, hfound, hvalues]

theorem unaryOperand_takes (ih : Readable bare numeral fuel) {e : Expr}
    (h : e.Everywhere (normalNodes numeral)) (hrest : (rest.headD .endOfInput).endsOperand) :
    (unary (fuel + 1)).Takes (e.operand bare ++ rest) rest (·.unplaced = e.unplaced) := by
  refine unary_of_primary (leadingOp?_of_startsOperand ((e.operand_starts bare).head rest)) ?_
  exact .bind (ih.primaryOperand h) fun found hfound => suffixed_stop hrest hfound

/-- An operand with a call, index, step or switch after it. -/
theorem unary_of_suffixForm (ih : Readable bare numeral fuel) {whole base : Expr}
    {tail : List Lexeme} (hform : SuffixForm bare whole base tail)
    (h : whole.Everywhere (normalNodes numeral)) (hrest : (rest.headD .endOfInput).endsOperand) :
    (unary (fuel + 1)).Takes (whole.lexemes bare ++ rest) rest (·.unplaced = whole.unplaced) := by
  rw [hform.lexemes_eq, List.append_assoc]
  refine unary_of_primary (leadingOp?_of_startsOperand ((base.operand_starts bare).head _)) ?_
  exact .bind (ih.primaryOperand (hform.base_normal h)) fun found hfound =>
    ih.suffixed hform h hfound hrest

/-- An operand that the rule `primary` reads alone. -/
theorem unary_of_isPrimary (ih : Readable bare numeral fuel) {e : Expr}
    (h : e.Everywhere (normalNodes numeral)) (hform : isPrimary e)
    (hrest : (rest.headD .endOfInput).endsExpr) :
    (unary (fuel + 1)).Takes (e.lexemes bare ++ rest) rest (·.unplaced = e.unplaced) := by
  refine unary_of_primary ?_ ?_
  · intro sign hsign
    cases e with
    | boolean _ value => cases value <;> cases hsign
    | list => cases hsign; rfl
    | number | text | character | name | function | choose => cases hsign
    | _ => cases hform
  · refine .bind (ih.primaryForm h hform hrest) fun found hfound => ?_
    exact suffixed_stop (Lexeme.endsOperand_of_endsExpr hrest) hfound

theorem unaryForm_takes (ih : Readable bare numeral fuel) {e : Expr}
    (h : e.Everywhere (normalNodes numeral)) (hform : isJoint e = false)
    (hrest : (rest.headD .endOfInput).endsExpr) :
    (unary (fuel + 1)).Takes (e.lexemes bare ++ rest) rest (·.unplaced = e.unplaced) := by
  have hrest' := Lexeme.endsOperand_of_endsExpr hrest
  cases e with
  | number | text | character | boolean | name | list | function | choose =>
    exact unary_of_isPrimary ih h rfl hrest
  | index p collection index => exact unary_of_suffixForm ih (.index p index) h hrest'
  | switch p subject arms => exact unary_of_suffixForm ih (.switch p arms) h hrest'
  | call p callee arguments =>
    cases callee with
    | named name =>
      exact unary_of_suffixForm ih (.call p (.name p name) arguments) h hrest'
    | computed function =>
      -- A callee that is computed is no name, so the parser keeps it as it is.
      have hform : SuffixForm bare (.call p (calleeOf function) arguments) function _ :=
        .call p function arguments
      rw [calleeOf_of_not_isName h.1] at hform
      exact unary_of_suffixForm ih hform h hrest'
  | unary p op fixity operand =>
    cases fixity with
    | leading =>
      simp only [Expr.lexemes, List.cons_append]
      rw [unary]
      refine .seq .position fun _ => .look ?_
      have hop : leadingOp? op.sign = some op := by cases op <;> rfl
      simp only [List.headD_cons, hop]
      refine .seq .advance fun _ => .bind (ih.unaryOperand h.2 hrest') fun found hfound => .pure ?_
      simp only [Expr.unplaced, hfound]
    | trailing =>
      obtain ⟨rfl | rfl, _⟩ := id h
      · exact unary_of_suffixForm ih (.increment p) h hrest'
      · exact unary_of_suffixForm ih (.decrement p) h hrest'
  | error => exact h.elim
  | _ => cases hform

/-! ### Expressions -/

theorem operands_takes (ih : Readable bare numeral fuel) {whole left found : Expr}
    {sign : Symbol} {joint : Joint} {tail : List Lexeme}
    (hform : JointForm bare whole left sign joint tail)
    (h : whole.Everywhere (normalNodes numeral)) (hfound : found.unplaced = left.unplaced)
    (hrest : (rest.headD .endOfInput).endsExpr) :
    (operands (fuel + 1) found joint).Takes (tail ++ rest) rest
      (·.unplaced = whole.unplaced) := by
  cases hform with
  | assign p op value =>
    rw [operands]
    refine .bind (ih.exprOperand assignLevel h.2.2 hrest) fun value hvalue => .pure ?_
    simp only [Expr.unplaced, hfound, hvalue]
  | ternary p yes no =>
    simp only [List.cons_append, List.append_assoc]
    rw [operands]
    refine .bind (ih.exprOperand assignLevel h.2.2.1 rfl) fun first hfirst => ?_
    refine .seq (.expectSymbol _) fun _ => ?_
    refine .bind (ih.exprOperand ternaryLevel h.2.2.2 hrest) fun second hsecond => .pure ?_
    simp only [Expr.unplaced, hfound, hfirst, hsecond]
  | binary p op level right _ =>
    rw [operands]
    refine .bind (ih.exprOperand _ h.2.2 hrest) fun value hvalue => .pure ?_
    simp only [Expr.unplaced, hfound, hvalue]

theorem joined_takes (ih : Readable bare numeral fuel) {whole left found : Expr}
    {sign : Symbol} {joint : Joint} {tail : List Lexeme}
    (hform : JointForm bare whole left sign joint tail)
    (h : whole.Everywhere (normalNodes numeral)) (hfound : found.unplaced = left.unplaced)
    (hrest : (rest.headD .endOfInput).endsExpr) :
    (joined (fuel + 1) assignLevel found).Takes (.symbol sign :: (tail ++ rest)) rest
      (·.unplaced = whole.unplaced) := by
  rw [joined]
  refine .look ?_
  have hends : joint.endsAt assignLevel = false := by
    cases joint <;> simp [Joint.endsAt, assignLevel]
  simp only [List.headD_cons, hform.joint_eq h, hends, Bool.false_eq_true, if_false]
  refine .seq .advance fun _ => .bind (ih.operands hform h hfound hrest) fun value hvalue => ?_
  exact joined_stop hrest hvalue

theorem exprOperand_takes (ih : Readable bare numeral fuel) {e : Expr} (least : Nat)
    (h : e.Everywhere (normalNodes numeral)) (hrest : (rest.headD .endOfInput).endsExpr) :
    (expression (fuel + 1) least).Takes (e.operand bare ++ rest) rest
      (·.unplaced = e.unplaced) := by
  rw [expression]
  refine .bind (ih.unaryOperand h (Lexeme.endsOperand_of_endsExpr hrest)) fun found hfound => ?_
  exact joined_stop hrest hfound

/-- An operand with a joint and further operands after it. -/
theorem expression_of_jointForm (ih : Readable bare numeral fuel) {whole left : Expr}
    {sign : Symbol} {joint : Joint} {tail : List Lexeme}
    (hform : JointForm bare whole left sign joint tail)
    (h : whole.Everywhere (normalNodes numeral)) (hrest : (rest.headD .endOfInput).endsExpr) :
    (expression (fuel + 1) assignLevel).Takes (whole.lexemes bare ++ rest) rest
      (·.unplaced = whole.unplaced) := by
  rw [hform.lexemes_eq, List.append_assoc, List.cons_append, expression]
  exact .bind (ih.unaryOperand (hform.left_normal h) hform.sign_endsOperand)
    fun found hfound => ih.joined hform h hfound hrest

theorem exprForm_takes (ih : Readable bare numeral fuel) {e : Expr}
    (h : e.Everywhere (normalNodes numeral)) (hrest : (rest.headD .endOfInput).endsExpr) :
    (expression (fuel + 1) assignLevel).Takes (e.lexemes bare ++ rest) rest
      (·.unplaced = e.unplaced) := by
  cases hform : isJoint e with
  | false =>
    rw [expression]
    exact .bind (ih.unaryForm h hform hrest) fun found hfound => joined_stop hrest hfound
  | true =>
    cases e with
    | assign p target op value => exact expression_of_jointForm ih (.assign p op value) h hrest
    | ternary p condition yes no => exact expression_of_jointForm ih (.ternary p yes no) h hrest
    | binary p left op right =>
      have hsign : ∃ level, joint? op.sign = some (.binary op level) := by
        cases op <;> exact ⟨_, rfl⟩
      obtain ⟨level, hsign⟩ := hsign
      exact expression_of_jointForm ih (.binary p op level right hsign) h hrest
    | _ => cases hform

/-- An expression that stands by itself. -/
theorem Readable.whole (ih : Readable bare numeral fuel) {e : Expr}
    (h : e.Everywhere (normalNodes numeral)) (hrest : (rest.headD .endOfInput).endsExpr) :
    (expression fuel assignLevel).Takes (e.whole bare ++ rest) rest
      (·.unplaced = e.unplaced) := by
  unfold Expr.whole Expr.alone
  split
  · exact ih.exprForm h hrest
  · exact ih.exprOperand assignLevel h hrest

/-! ### Rows of expressions -/

theorem items_takes (ih : Readable bare numeral fuel) {es : List Expr}
    (h : Expr.EverywhereAll (normalNodes numeral) es) (hrest : (rest.headD .endOfInput).endsExpr)
    (hcomma : (rest.headD .endOfInput).isSymbol .comma = false) :
    (items (fuel + 1)).Takes (Expr.lexemesMore bare es ++ rest) rest
      (Expr.unplacedAll · = Expr.unplacedAll es) := by
  rw [items]
  cases es with
  | nil => exact .ifNotSymbol hcomma (.pure rfl)
  | cons first more =>
    simp only [Expr.lexemesMore, List.cons_append, List.append_assoc]
    refine .ifSymbol (.seq .advance fun _ => ?_)
    refine .bind (ih.exprOperand assignLevel h.1 (Expr.lexemesMore_ends hrest)) fun item hitem => ?_
    refine .bind (ih.items h.2 hrest hcomma) fun found hfound => .pure ?_
    simp only [Expr.unplacedAll, hitem, hfound]

theorem arguments_takes (ih : Readable bare numeral fuel) {es : List Expr}
    (h : Expr.EverywhereAll (normalNodes numeral) es) :
    (arguments (fuel + 1)).Takes (Expr.lexemesRow bare es ++ .symbol .rightParen :: rest) rest
      (Expr.unplacedAll · = Expr.unplacedAll es) := by
  rw [arguments]
  cases es with
  | nil => exact .ifSymbol (.seq .advance fun _ => .pure rfl)
  | cons first more =>
    simp only [Expr.lexemesRow, List.append_assoc]
    refine .ifNotSymbol ((first.operand_starts bare).not_isSymbol rfl _) ?_
    refine .bind (ih.exprOperand assignLevel h.1 (Expr.lexemesMore_ends rfl)) fun item hitem => ?_
    refine .bind (ih.items h.2 rfl rfl) fun found hfound => ?_
    refine .seq (.expectSymbol _) fun _ => .pure ?_
    simp only [Expr.unplacedAll, hitem, hfound]

theorem listOrRange_takes (ih : Readable bare numeral fuel) {es : List Expr} (place : Position)
    (h : Expr.EverywhereAll (normalNodes numeral) es) :
    (listOrRange (fuel + 1) place).Takes
      (Expr.lexemesRow bare es ++ .symbol .rightBracket :: rest) rest
      (·.unplaced = .list .unknown (Expr.unplacedAll es)) := by
  rw [listOrRange]
  cases es with
  | nil => exact .ifSymbol (.seq .advance fun _ => .pure rfl)
  | cons first more =>
    simp only [Expr.lexemesRow, List.append_assoc]
    refine .ifNotSymbol ((first.operand_starts bare).not_isSymbol rfl _) ?_
    refine .bind (ih.exprOperand assignLevel h.1 (Expr.lexemesMore_ends rfl)) fun item hitem => ?_
    refine .ifNotSymbol ?_ ?_
    · cases more <;> rfl
    refine .bind (ih.items h.2 rfl rfl) fun found hfound => ?_
    refine .seq (.expectSymbol _) fun _ => .pure ?_
    simp only [Expr.unplaced, Expr.unplacedAll, hitem, hfound]

theorem branches_takes (ih : Readable bare numeral fuel) {branches : List Branch}
    (h : Branch.EverywhereAll (normalNodes numeral) branches)
    (hrest : (rest.headD .endOfInput).endsExpr)
    (helif : (rest.headD .endOfInput).isKeyword .elifWord = false) :
    (Grammar.branches (fuel + 1)).Takes (Branch.lexemesAll bare branches ++ rest) rest
      (Branch.unplacedAll · = Branch.unplacedAll branches) := by
  rw [Grammar.branches]
  cases branches with
  | nil => exact .ifNotKeyword helif (.pure rfl)
  | cons branch more =>
    obtain ⟨condition, result⟩ := branch
    obtain ⟨hcondition, hresult, hmore⟩ := h
    simp only [Branch.lexemesAll, List.cons_append, List.append_assoc]
    refine .ifKeyword (.seq .advance fun _ => ?_)
    refine .bind (ih.exprOperand assignLevel hcondition rfl) fun test htest => ?_
    refine .seq (.expectKeyword _) fun _ => ?_
    refine .bind (ih.exprOperand assignLevel hresult (Branch.lexemesAll_ends hrest))
      fun value hvalue => ?_
    refine .bind (ih.branches hmore hrest helif) fun found hfound => .pure ?_
    simp only [Branch.unplacedAll, htest, hvalue, hfound]

theorem armPattern_takes (ih : Readable bare numeral fuel) {pattern : Option Expr}
    (h : Expr.EverywhereOption (normalNodes numeral) pattern)
    (hrest : (rest.headD .endOfInput).endsExpr) :
    (armPattern (fuel + 1)).Takes (Expr.lexemesPattern bare pattern ++ rest) rest
      (Expr.unplacedOption · = Expr.unplacedOption pattern) := by
  rw [armPattern]
  cases pattern with
  | none => exact .ifKeyword (.seq .advance fun _ => .pure rfl)
  | some pattern =>
    refine .ifNotKeyword ((pattern.operand_starts bare).not_isKeyword rfl _) ?_
    refine .bind (ih.exprOperand assignLevel h hrest) fun found hfound => .pure ?_
    simp only [Expr.unplacedOption, hfound]

theorem arms_takes (ih : Readable bare numeral fuel) {arms : List Arm}
    (h : Arm.EverywhereAll (normalNodes numeral) arms)
    (hlast : wildcardLast (arms.map Arm.pattern)) :
    (Grammar.arms (fuel + 1) false).Takes
      (Arm.lexemesRow bare arms ++ .symbol .rightBrace :: rest) (.symbol .rightBrace :: rest)
      (Arm.unplacedAll · = Arm.unplacedAll arms) := by
  rw [Grammar.arms]
  refine .look ?_
  cases arms with
  | nil => exact .pure rfl
  | cons arm more =>
    obtain ⟨pattern, result⟩ := arm
    obtain ⟨hpattern, hresult, hmore⟩ := h
    simp only [Arm.lexemesRow, List.cons_append, List.append_assoc]
    rw [if_neg (Bool.eq_false_iff.1 (Expr.lexemesPattern_not_endsBlock _ _))]
    refine .bind (ih.armPattern hpattern rfl) fun found hfound => .seq (.expectSymbol _) fun _ => ?_
    refine .bind (ih.exprOperand assignLevel hresult (Arm.lexemesMore_ends rfl))
      fun value hvalue => ?_
    cases more with
    | nil =>
      refine .ifNotSymbol rfl (.bind (.pure rfl) fun others hothers => .pure ?_)
      rw [hothers]
      simp only [Bool.false_eq_true, if_false, Arm.unplacedAll, hfound, hvalue]
    | cons next more =>
      -- Another arm follows, so this one has a pattern and does not close the switch.
      cases pattern with
      | none => cases hlast
      | some pattern =>
        cases found with
        | none => cases hfound
        | some found =>
          rw [Arm.lexemesMore_cons, List.cons_append]
          refine .ifSymbol (.seq .advance fun _ => ?_)
          refine .bind (ih.arms hmore hlast) fun others hothers => .pure ?_
          simp only [Bool.false_eq_true, if_false, Arm.unplacedAll, hfound, hvalue] at hothers ⊢
          rw [hothers]

/-! ### Functions -/

theorem names_takes (role : NameRole) {listed : List String} (h : listed ≠ [])
    (hcomma : (rest.headD .endOfInput).isSymbol .comma = false) :
    (names role fuel).Takes (namesLexemes listed ++ rest) rest
      (fun found => found.map Prod.fst = listed) := by
  induction listed generalizing fuel with
  | nil => exact absurd rfl h
  | cons name more ih =>
    cases fuel with
    | zero => exact .exhausted
    | succ fuel =>
      rw [names]
      refine .seq .position fun place => ?_
      cases more with
      | nil =>
        refine .bind (.expectName role) fun found hfound => .ifNotSymbol hcomma (.pure ?_)
        rw [hfound]
        rfl
      | cons next more =>
        refine .bind (.expectName role) fun found hfound => .ifSymbol (.seq .advance fun _ => ?_)
        refine .bind (ih (List.cons_ne_nil _ _)) fun others hothers => .pure ?_
        rw [hfound, List.map_cons, hothers]

theorem parameters_takes (listed : List String) :
    (parameters fuel).Takes
      (.symbol .leftParen :: (namesLexemes listed ++ .symbol .rightParen :: rest)) rest
      (· = listed) := by
  unfold parameters
  refine .ifSymbol (.seq .advance fun _ => ?_)
  cases listed with
  | nil => exact .ifSymbol (.ifSymbol (.seq .advance fun _ => .pure rfl))
  | cons name more =>
    refine .ifNotSymbol ?_ ?_
    · cases more <;> rfl
    · refine .bind (names_takes .parameter (List.cons_ne_nil _ _) rfl) fun found hfound => ?_
      exact .ifSymbol (.seq .advance fun _ => .pure hfound)

theorem function_takes (ih : Readable bare numeral fuel) {declaration : Declaration}
    (place : Position) (hhead : declaration.HasHead)
    (h : declaration.Everywhere (normalNodes numeral)) :
    (function (fuel + 1) place declaration.name).Takes (.symbol .leftParen ::
      (namesLexemes declaration.parameters ++ .symbol .rightParen ::
        (declaration.body.lexemes bare ++ rest))) rest (·.unplaced = declaration.unplaced) := by
  obtain ⟨source, position, name, listed, body⟩ := declaration
  obtain ⟨statements, rfl⟩ := hhead.body
  simp only [Stmt.lexemes, List.cons_append, List.append_assoc, List.nil_append]
  rw [function]
  refine .bind (parameters_takes listed) fun found hfound => .ifSymbol ?_
  refine .bind (ih.block h.2) fun inner hinner => .seq (.gets _) fun _ => .pure ?_
  simp only [Declaration.unplaced, Stmt.unplaced, hfound, hinner]

theorem definition_takes (ih : Readable bare numeral fuel) {declaration : Declaration}
    (hname : declaration.IsNamed) (hhead : declaration.HasHead)
    (h : declaration.Everywhere (normalNodes numeral)) :
    (definition (fuel + 1)).Takes (.keyword .funcWord :: (declaration.lexemes bare ++ rest)) rest
      (·.unplaced = declaration.unplaced) := by
  obtain ⟨name, hname, _⟩ := hname
  simp only [Declaration.lexemes_eq, hname, Option.map_some, Option.toList_some, List.cons_append,
    List.append_assoc, List.nil_append]
  rw [definition]
  refine .seq .position fun place => .seq .advance fun _ => ?_
  refine .bind (.expectName .function) fun found hfound => ?_
  rw [hfound, ← hname]
  exact ih.function place hhead h

end Grammar

end Betty
