import Betty.Program.Parse
import Betty.Proofs.Parser.Local
import Betty.Proofs.Parser.Readable.Expressions

/-!
# Operators and how tightly they bind

The operators of the language form a table of levels. An expression of literals, names and
operators is printed with parentheses only around those operands that bind less tightly than
their place asks for. The parser reads the printed form back as the same expression: so it
groups operators as the table says, and in no other way.

The table is written down here by itself, and not taken from the grammar.

## Main definitions

* `BinaryOp.level`, `Expr.level`: the table of levels.
* `Expr.IsFormula`: expressions of literals, names and operators.
* `Expr.sparse`: the printed form with as few parentheses as the table allows.

## Main results

* `operators_bind_by_level`: the printed form is read back.
-/

namespace Betty

/-! ### The table of levels -/

/-- How tightly a binary operator binds its operands. -/
def BinaryOp.level : BinaryOp → Nat
  | .eq | .ne | .lt | .le | .gt | .ge => 2
  | .and => 3
  | .or => 4
  | .add | .sub => 5
  | .mul | .div | .rem | .floorDiv => 6
  | .pow => 7

/-- The least level of a left operand. All operators but powers group to the left. -/
def BinaryOp.leftLevel (op : BinaryOp) : Nat :=
  if op = .pow then op.level + 1 else op.level

/-- The least level of a right operand. Powers group to the right. -/
def BinaryOp.rightLevel (op : BinaryOp) : Nat :=
  if op = .pow then op.level else op.level + 1

/-- How tightly the outermost operator of an expression binds: assignments least, then the
ternary operator, then the binary ones. Operators before their operand bind tightest. -/
def Expr.level : Expr → Nat
  | .assign _ _ _ _ => 0
  | .ternary _ _ _ _ => 1
  | .binary _ _ op _ => op.level
  | _ => 8

/-- Expressions of literals, names and operators. -/
inductive Expr.IsFormula : Expr → Prop
  | atom {expr : Expr} (atom : expr.isAtom) : IsFormula expr
  | leading (position : Position) (op : UnaryOp) {operand : Expr} (operand_is : IsFormula operand) :
      IsFormula (.unary position op .leading operand)
  | binary (position : Position) (op : BinaryOp) {left right : Expr} (left_is : IsFormula left)
      (right_is : IsFormula right) : IsFormula (.binary position left op right)
  | ternary (position : Position) {condition yes no : Expr} (condition_is : IsFormula condition)
      (yes_is : IsFormula yes) (no_is : IsFormula no) :
      IsFormula (.ternary position condition yes no)
  /-- Only some binary operators can be part of an assignment. -/
  | assign (position : Position) {op : Option BinaryOp} {target value : Expr}
      (known : ∀ other ∈ op, other.assignSign?.isSome) (target_is : IsFormula target)
      (value_is : IsFormula value) : IsFormula (.assign position target op value)

/-- The printed form of an operand where its level must be at least `least`, from the form
without parentheses. -/
def Expr.fitted (least : Nat) (expr : Expr) (lexemes : List Lexeme) : List Lexeme :=
  if least ≤ expr.level then lexemes
  else .symbol .leftParen :: (lexemes ++ [.symbol .rightParen])

/-- The printed form of a formula, with parentheses only where the levels ask for them. -/
def Expr.sparse : Expr → List Lexeme
  | .number _ value => [.number value]
  | .text _ value => [.text value]
  | .character _ value => [.character value]
  | .boolean _ value => [.keyword (if value then .trueWord else .falseWord)]
  | .name _ word => [.identifier word]
  | .unary _ op _ operand => .symbol op.sign :: operand.fitted 8 operand.sparse
  | .binary _ left op right =>
    left.fitted op.leftLevel left.sparse ++
      .symbol op.sign :: right.fitted op.rightLevel right.sparse
  | .ternary _ condition yes no =>
    condition.fitted 2 condition.sparse ++ .symbol .question ::
      (yes.fitted 0 yes.sparse ++ .symbol .colon :: no.fitted 1 no.sparse)
  | .assign _ target op value =>
    target.fitted 1 target.sparse ++ .symbol (assignSign op) :: value.fitted 0 value.sparse
  | _ => []

/-- The level at which the last operand of an expression is read. What follows the
expression must not be taken for a part of that operand. -/
def Expr.reach : Expr → Nat
  | .assign _ _ _ _ => 0
  | .ternary _ _ _ _ => 1
  | .binary _ _ op _ => op.rightLevel
  | _ => 8

/-! ### Levels and the grammar -/

theorem BinaryOp.level_le_leftLevel (op : BinaryOp) : op.level ≤ op.leftLevel := by
  unfold leftLevel
  split <;> omega

theorem BinaryOp.level_le_rightLevel (op : BinaryOp) : op.level ≤ op.rightLevel := by
  unfold rightLevel
  split <;> omega

theorem BinaryOp.two_le_level (op : BinaryOp) : 2 ≤ op.level := by
  cases op <;> decide

theorem Expr.level_le_reach (expr : Expr) : expr.level ≤ expr.reach := by
  unfold level reach
  split
  · exact Nat.le_refl _
  · exact Nat.le_refl _
  · exact BinaryOp.level_le_rightLevel _
  · next hassign hternary hbinary =>
    cases expr with
    | assign => exact (hassign _ _ _ _ rfl).elim
    | ternary => exact (hternary _ _ _ _ rfl).elim
    | binary => exact (hbinary _ _ _ _ rfl).elim
    | _ => exact Nat.le_refl _

/-- An operator ends what stands to its left, if that needs no parentheses there. -/
theorem BinaryOp.level_lt_reach {op : BinaryOp} {left : Expr} (h : op.leftLevel ≤ left.level) :
    op.level < left.reach := by
  have htwo := op.two_le_level
  have hleft := op.level_le_leftLevel
  cases left with
  | assign | ternary =>
    simp only [Expr.level] at h
    omega
  | binary _ _ other _ =>
    simp only [Expr.level] at h
    simp only [Expr.reach]
    revert h
    clear htwo hleft
    cases op <;> cases other <;> decide
  | _ =>
    simp only [Expr.reach]
    cases op <;> decide

namespace Grammar

open Reading

theorem joint?_sign (op : BinaryOp) : joint? op.sign = some (.binary op op.level) := by
  cases op <;> rfl

theorem joint?_assignSign {op : Option BinaryOp} (h : ∀ other ∈ op, other.assignSign?.isSome) :
    joint? (assignSign op) = some (.assign op) := by
  cases op with
  | none => rfl
  | some other =>
    have hknown := h other rfl
    cases other <;> first | rfl | cases hknown

theorem leadingOp?_sign (op : UnaryOp) : leadingOp? op.sign = some op := by
  cases op <;> rfl

theorem rightLevel_eq (op : BinaryOp) : rightLevel op op.level = op.rightLevel := rfl

theorem sign_endsAt (op : BinaryOp) {least : Nat} (h : op.level < least) :
    (Lexeme.symbol op.sign).endsAt least := by
  have hoperand : (Lexeme.symbol op.sign).endsOperand := by cases op <;> rfl
  simp [Lexeme.endsAt, hoperand, joint?_sign, Joint.endsAt, h]

theorem assignSign_endsAt {op : Option BinaryOp} {least : Nat}
    (hop : ∀ other ∈ op, other.assignSign?.isSome) (h : 0 < least) :
    (Lexeme.symbol (assignSign op)).endsAt least := by
  have hoperand : (Lexeme.symbol (assignSign op)).endsOperand := by
    cases op with
    | none => rfl
    | some other => cases other <;> rfl
  simp [Lexeme.endsAt, hoperand, joint?_assignSign hop, Joint.endsAt, assignLevel, h]

/-- A joint that does not end the expression, its operands, and the rest. -/
theorem joined_joint {fuel least : Nat} {left : Expr} {sign : Symbol} {joint : Joint}
    {tail middle after : List Lexeme} {made made' : Expr → Prop} (hsign : joint? sign = some joint)
    (hgoes : joint.endsAt least = false)
    (hoperands : ∀ fuel, (operands fuel left joint).Takes tail middle made')
    (hrest : ∀ fuel whole, made' whole → (joined fuel least whole).Takes middle after made) :
    (joined fuel least left).Takes (.symbol sign :: tail) after made := by
  cases fuel with
  | zero => exact .exhausted
  | succ fuel =>
    rw [joined]
    refine .look ?_
    simp only [List.headD_cons, hsign]
    rw [hgoes, if_neg Bool.false_ne_true]
    exact .seq .advance fun _ => .bind (hoperands fuel) (hrest fuel)

/-! ### Reading formulas -/

/-- The parser reads the printed form of a formula: as an operand, if no operator takes it
apart, and at the start of an expression that goes on with the lexemes after it. -/
structure Understood (expr : Expr) : Prop where
  operand : 8 ≤ expr.level → ∀ {fuel : Nat} {rest : List Lexeme},
    (rest.headD .endOfInput).endsOperand →
    (unary fuel).Takes (expr.sparse ++ rest) rest (·.unplaced = expr.unplaced)
  joins : ∀ {fuel least : Nat} {rest after : List Lexeme} {made : Expr → Prop},
    least ≤ expr.level → (rest.headD .endOfInput).endsAt expr.reach →
    (∀ fuel found, found.unplaced = expr.unplaced →
      (joined fuel least found).Takes rest after made) →
    (expression fuel least).Takes (expr.sparse ++ rest) after made

namespace Understood

variable {expr : Expr} {fuel least place : Nat} {rest after : List Lexeme} {made : Expr → Prop}

/-- In parentheses, the formula is an operand. -/
theorem parenthesized (h : Understood expr) :
    (primary fuel).Takes (.symbol .leftParen :: (expr.sparse ++ .symbol .rightParen :: rest)) rest
      (·.unplaced = expr.unplaced) := by
  cases fuel with
  | zero => exact .exhausted
  | succ fuel =>
    have hinner : (expression fuel assignLevel).Takes (expr.sparse ++ .symbol .rightParen :: rest)
        (.symbol .rightParen :: rest) (·.unplaced = expr.unplaced) :=
      h.joins (Nat.zero_le _) rfl fun _ _ hfound => joined_stop rfl hfound
    rw [primary]
    refine .seq .position fun _ => .look (.seq .advance fun _ => .bind hinner fun _ hfound => ?_)
    exact .seq (.expectSymbol _) fun _ => .pure hfound

theorem unary_parenthesized (h : Understood expr) (hrest : (rest.headD .endOfInput).endsOperand) :
    (unary fuel).Takes (.symbol .leftParen :: (expr.sparse ++ .symbol .rightParen :: rest)) rest
      (·.unplaced = expr.unplaced) := by
  cases fuel with
  | zero => exact .exhausted
  | succ fuel =>
    refine unary_of_primary (leadingOp?_of_startsOperand rfl) ?_
    exact .bind h.parenthesized fun _ hfound => suffixed_stop hrest hfound

theorem fitted_append (expr : Expr) (place : Nat) (rest : List Lexeme) :
    expr.fitted place expr.sparse ++ rest = if place ≤ expr.level then expr.sparse ++ rest
      else .symbol .leftParen :: (expr.sparse ++ .symbol .rightParen :: rest) := by
  unfold Expr.fitted
  split
  · rfl
  · simp

/-- After an operator before it, the formula is an operand, if need be in parentheses. -/
theorem unary_fitted (h : Understood expr) (hrest : (rest.headD .endOfInput).endsOperand) :
    (unary fuel).Takes (expr.fitted 8 expr.sparse ++ rest) rest (·.unplaced = expr.unplaced) := by
  rw [fitted_append]
  split
  · next hfits => exact h.operand hfits hrest
  · exact h.unary_parenthesized hrest

/-- At the start of an expression that goes on, if need be in parentheses. -/
theorem joins_fitted (h : Understood expr) (hplace : least ≤ place)
    (hhead : place ≤ expr.level → (rest.headD .endOfInput).endsAt expr.reach)
    (hend : (rest.headD .endOfInput).endsOperand)
    (hjoined : ∀ fuel found, found.unplaced = expr.unplaced →
      (joined fuel least found).Takes rest after made) :
    (expression fuel least).Takes (expr.fitted place expr.sparse ++ rest) after made := by
  rw [fitted_append]
  split
  · next hfits => exact h.joins (Nat.le_trans hplace hfits) (hhead hfits) hjoined
  · cases fuel with
    | zero => exact .exhausted
    | succ fuel =>
      rw [expression]
      exact .bind (h.unary_parenthesized hend) (hjoined fuel)

/-- As the last operand of an operator. -/
theorem whole_fitted (h : Understood expr) (hrest : (rest.headD .endOfInput).endsAt place) :
    (expression fuel place).Takes (expr.fitted place expr.sparse ++ rest) rest
      (·.unplaced = expr.unplaced) := by
  refine h.joins_fitted (Nat.le_refl _) (fun hfits => ?_) (Lexeme.endsOperand_of_endsAt hrest)
    fun _ _ hfound => joined_stopAt hrest hfound
  exact Lexeme.endsAt_mono (Nat.le_trans hfits expr.level_le_reach) hrest

/-- What is read as an operand is read at the start of an expression. -/
theorem of_operand
    (h : ∀ {fuel : Nat} {rest : List Lexeme}, (rest.headD .endOfInput).endsOperand →
      (unary fuel).Takes (expr.sparse ++ rest) rest (·.unplaced = expr.unplaced)) :
    Understood expr where
  operand _ := h
  joins {fuel least rest after made} _ hrest hjoined := by
    cases fuel with
    | zero => exact .exhausted
    | succ fuel =>
      rw [expression]
      exact .bind (h (Lexeme.endsOperand_of_endsAt hrest)) (hjoined fuel)

/-! #### One case for each kind of formula -/

theorem atom (hatom : expr.isAtom) : Understood expr := by
  have hprimary : ∀ {fuel : Nat} {rest : List Lexeme},
      (primary fuel).Takes (expr.sparse ++ rest) rest (·.unplaced = expr.unplaced) := by
    intro fuel rest
    cases fuel with
    | zero => exact .exhausted
    | succ fuel =>
      rw [primary]
      cases expr with
      | number | text | character | name =>
        exact .seq .position fun _ => .look (.seq .advance fun _ => .pure rfl)
      | boolean _ value =>
        cases value
        · exact .seq .position fun _ => .look (.seq .advance fun _ => .pure rfl)
        · exact .seq .position fun _ => .look (.seq .advance fun _ => .pure rfl)
      | _ => cases hatom
  have hstarts : ∀ rest : List Lexeme, ((expr.sparse ++ rest).headD .endOfInput).startsOperand := by
    intro rest
    cases expr with
    | number | text | character | name => rfl
    | boolean _ value => cases value <;> rfl
    | _ => cases hatom
  refine .of_operand fun {fuel rest} hrest => ?_
  cases fuel with
  | zero => exact .exhausted
  | succ fuel =>
    refine unary_of_primary (leadingOp?_of_startsOperand (hstarts rest)) ?_
    exact .bind hprimary fun _ hfound => suffixed_stop hrest hfound

theorem leading (position : Position) (op : UnaryOp) {operand : Expr} (h : Understood operand) :
    Understood (.unary position op .leading operand) := by
  refine .of_operand fun {fuel rest} hrest => ?_
  cases fuel with
  | zero => exact .exhausted
  | succ fuel =>
    rw [unary]
    refine .seq .position fun _ => .look ?_
    simp only [Expr.sparse, List.cons_append, List.headD_cons, leadingOp?_sign]
    refine .seq .advance fun _ => .bind (h.unary_fitted hrest) fun found hfound => .pure ?_
    simp [Expr.unplaced, hfound]

theorem binary (position : Position) (op : BinaryOp) {left right : Expr} (hl : Understood left)
    (hr : Understood right) : Understood (.binary position left op right) where
  operand hlevel := by
    have hpow : op.level ≤ 7 := by cases op <;> decide
    have hlevel : 8 ≤ op.level := hlevel
    omega
  joins {fuel least rest after made} hleast hrest hjoined := by
    have hleast : least ≤ op.level := hleast
    have hgoes : (Joint.binary op op.level).endsAt least = false :=
      decide_eq_false (Nat.not_lt.2 hleast)
    rw [Expr.sparse, List.append_assoc, List.cons_append]
    have hsign : (Lexeme.symbol op.sign).endsOperand :=
      Lexeme.endsOperand_of_endsAt (sign_endsAt op (Nat.lt_succ_self _))
    refine hl.joins_fitted (Nat.le_trans hleast op.level_le_leftLevel)
      (fun hfits => sign_endsAt op (BinaryOp.level_lt_reach hfits)) hsign ?_
    intro fuel found hfound
    refine joined_joint (joint?_sign op) hgoes (fun fuel => ?_) hjoined
    cases fuel with
    | zero => exact .exhausted
    | succ fuel =>
      rw [operands, rightLevel_eq]
      refine .bind (hr.whole_fitted hrest) fun value hvalue => .pure ?_
      simp [Expr.unplaced, hfound, hvalue]

theorem ternary (position : Position) {condition yes no : Expr} (hc : Understood condition)
    (hy : Understood yes) (hn : Understood no) :
    Understood (.ternary position condition yes no) where
  operand hlevel := by
    have hlevel : 8 ≤ 1 := hlevel
    omega
  joins {fuel least rest after made} hleast hrest hjoined := by
    have hleast : least ≤ 1 := hleast
    have hgoes : Joint.ternary.endsAt least = false := decide_eq_false (Nat.not_lt.2 hleast)
    have hquestion : (Lexeme.symbol .question).endsAt 2 := rfl
    simp only [Expr.sparse, List.append_assoc, List.cons_append]
    refine hc.joins_fitted (Nat.le_succ_of_le hleast) (fun hfits => ?_) rfl ?_
    · exact Lexeme.endsAt_mono (Nat.le_trans hfits condition.level_le_reach) hquestion
    intro fuel found hfound
    refine joined_joint rfl hgoes (fun fuel => ?_) hjoined
    cases fuel with
    | zero => exact .exhausted
    | succ fuel =>
      rw [operands]
      refine .bind (hy.whole_fitted rfl) fun first hfirst => ?_
      refine .seq (.expectSymbol _) fun _ => .bind (hn.whole_fitted hrest) fun second hsecond => ?_
      exact .pure (by simp [Expr.unplaced, hfound, hfirst, hsecond])

theorem assign (position : Position) {op : Option BinaryOp} {target value : Expr}
    (hknown : ∀ other ∈ op, other.assignSign?.isSome) (ht : Understood target)
    (hv : Understood value) : Understood (.assign position target op value) where
  operand hlevel := by
    have hlevel : 8 ≤ 0 := hlevel
    omega
  joins {fuel least rest after made} hleast hrest hjoined := by
    have hleast : least ≤ 0 := hleast
    have hgoes : (Joint.assign op).endsAt least = false := decide_eq_false (Nat.not_lt.2 hleast)
    have hsign : (Lexeme.symbol (assignSign op)).endsOperand :=
      Lexeme.endsOperand_of_endsAt (assignSign_endsAt hknown Nat.one_pos)
    rw [Expr.sparse, List.append_assoc, List.cons_append]
    refine ht.joins_fitted (Nat.le_succ_of_le hleast)
      (fun hfits => assignSign_endsAt hknown (Nat.le_trans hfits target.level_le_reach)) hsign ?_
    intro fuel found hfound
    refine joined_joint (joint?_assignSign hknown) hgoes (fun fuel => ?_) hjoined
    cases fuel with
    | zero => exact .exhausted
    | succ fuel =>
      rw [operands]
      refine .bind (hv.whole_fitted hrest) fun second hsecond => .pure ?_
      simp [Expr.unplaced, hfound, hsecond]

end Understood

theorem understood {expr : Expr} (h : expr.IsFormula) : Understood expr := by
  induction h with
  | atom hatom => exact .atom hatom
  | leading position op _ ih => exact ih.leading position op
  | binary position op _ _ ihl ihr => exact ihl.binary position op ihr
  | ternary position _ _ _ ihc ihy ihn => exact ihc.ternary position ihy ihn
  | assign position hknown _ _ iht ihv => exact .assign position hknown iht ihv

end Grammar

/-- The parser groups operators as the table says. The printed form of a formula, followed by
a semicolon, is read as that formula, up to positions: without an error, whatever errors have
been recorded before, and up to the semicolon. -/
theorem operators_bind_by_level (expr : Expr) (hformula : expr.IsFormula) (input : Input)
    (rest : List Lexeme)
    (hahead : input.lexemes = expr.sparse ++ .symbol .semicolon :: rest)
    (fuel : Nat) (hfuel : Grammar.fuelFor input ≤ fuel) :
    ∃ found after, Grammar.expression fuel Grammar.assignLevel input = .done found after ∧
      found.unplaced = expr.unplaced ∧ after.errors = input.errors ∧
      after.lexemes = .symbol .semicolon :: rest := by
  have htakes : (Grammar.expression fuel Grammar.assignLevel).Takes
      (expr.sparse ++ .symbol .semicolon :: rest) (.symbol .semicolon :: rest)
      (·.unplaced = expr.unplaced) :=
    (Grammar.understood hformula).joins (Nat.zero_le _) rfl fun _ _ hfound =>
      Grammar.joined_stop rfl hfound
  have hlocal := Grammar.expression_local (Nat.le_refl fuel) Grammar.assignLevel
  have hreads := (Grammar.rules .any fuel).expression Grammar.assignLevel
    (Grammar.Outlook.any_braces (.loose 0) input)
  have hmeets := htakes.anywhere hlocal input hahead
  cases hrun : Grammar.expression fuel Grammar.assignLevel input with
  | done found after =>
    rw [hrun] at hmeets
    obtain ⟨hfound, hlexemes, herrors⟩ := hmeets
    exact ⟨found, after, rfl, hfound, herrors, hlexemes⟩
  | failed error after =>
    rw [hrun] at hmeets
    exact hmeets.elim
  | outOfFuel =>
    rw [hrun] at hreads
    have hcut : fuel < 16 * input.ahead.length + 3 := hreads
    unfold Grammar.fuelFor at hfuel
    omega

/-- A formula with operators of all levels. -/
def Expr.mixed : Expr :=
  let name := Expr.name .start
  .assign .start (name "a") none (.ternary .start (name "b")
    (.binary .start (.unary .start .neg .leading (name "c")) .pow
      (.binary .start (name "d") .pow (name "e")))
    (.binary .start (.binary .start (.assign .start (name "f") (some .add) (name "g")) .add
      (.binary .start (name "h") .mul (.binary .start (name "i") .sub
        (.binary .start (name "j") .sub (name "k"))))) .eq (name "l")))

/-- The formula with the parentheses that it needs. -/
def Source.mixed : Source :=
  .ofText "a = b ? -c ^ d ^ e : (f += g) + h * (i - (j - k)) == l;"

theorem operators_bind_by_level_mixed :
    Expr.mixed.IsFormula ∧
      Source.mixed.input.lexemes = Expr.mixed.sparse ++ [.symbol .semicolon] ∧
      ∃ found after, Grammar.expression (Grammar.fuelFor Source.mixed.input) Grammar.assignLevel
          Source.mixed.input = .done found after ∧
        found.unplaced = Expr.mixed.unplaced ∧ after.errors = Source.mixed.input.errors ∧
        after.lexemes = [.symbol .semicolon] := by
  have hformula : Expr.mixed.IsFormula := by
    refine .assign _ nofun (.atom rfl) (.ternary _ (.atom rfl) ?_ ?_)
    · exact .binary _ _ (.leading _ _ (.atom rfl)) (.binary _ _ (.atom rfl) (.atom rfl))
    · refine .binary _ _ (.binary _ _ (.assign _ ?_ (.atom rfl) (.atom rfl)) ?_) (.atom rfl)
      · rintro _ ⟨⟩
        rfl
      · exact .binary _ _ (.atom rfl) (.binary _ _ (.atom rfl)
          (.binary _ _ (.atom rfl) (.atom rfl)))
  have htext : Source.mixed.input.lexemes =
      Expr.mixed.sparse ++ [.symbol .semicolon] := rfl
  exact ⟨hformula, htext, operators_bind_by_level _ hformula _ _ htext _ (Nat.le_refl _)⟩

end Betty
