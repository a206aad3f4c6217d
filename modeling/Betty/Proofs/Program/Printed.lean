import Betty.Program.Grammar
import Betty.Proofs.Parser.Moves
import Betty.Proofs.Program.Print

/-!
# The shape of printed programs

Where printed trees start and what may follow them. The grammar looks one or two lexemes
ahead, so this decides which rule reads a printed tree and where the rule stops.

## Main definitions

* `Lexeme.startsExpr`, `Lexeme.endsExpr`: where printed expressions start, and what ends them.
* `Lexeme.endsAt`: what ends an expression whose operators must bind tightly enough.
* `Lexeme.continuesIf`: what must not follow an `if` statement without `else`.
* `SuffixForm`, `JointForm`: the expressions that the grammar reads from left to right.
-/

namespace Betty

/-! ### Where printed trees start and end -/

namespace Lexeme

/-- Does a printed expression inside another one start like this? -/
def startsOperand : Lexeme → Bool
  | number _ | text _ | character _ | identifier _ => true
  | keyword .trueWord | keyword .falseWord => true
  | symbol .leftParen => true
  | _ => false

/-- Does a printed expression start like this? -/
def startsExpr : Lexeme → Bool
  | keyword .funcWord | keyword .ifWord => true
  | symbol .leftBracket => true
  | symbol sign => (Grammar.leadingOp? sign).isSome || (symbol sign).startsOperand
  | other => other.startsOperand

/-- Does a printed statement start like this? -/
def startsStmt : Lexeme → Bool
  | keyword .forWord | keyword .foreachWord | keyword .whileWord | keyword .doWord
  | keyword .switchWord | keyword .breakWord | keyword .continueWord | keyword .returnWord => true
  | symbol .leftBrace | symbol .semicolon => true
  | other => other.startsExpr

/-- Does no call, index, step or switch start like this? -/
def endsOperand : Lexeme → Bool
  | symbol .leftParen | symbol .leftBracket | symbol .increment | symbol .decrement => false
  | keyword .switchWord => false
  | _ => true

/-- Does an expression end before this lexeme? -/
def endsExpr : Lexeme → Bool
  | symbol sign => (symbol sign).endsOperand && (Grammar.joint? sign).isNone
  | other => other.endsOperand

/-- Does an expression that must bind at least as tightly as `least` end before this
lexeme? -/
def endsAt (least : Nat) : Lexeme → Bool
  | symbol sign => (symbol sign).endsOperand && (Grammar.joint? sign).all (·.endsAt least)
  | other => other.endsOperand

/-- Would an `if` statement go on with this lexeme? -/
def continuesIf (lexeme : Lexeme) : Bool :=
  lexeme.isKeyword .elifWord || lexeme.isKeyword .elseWord

theorem endsOperand_of_endsExpr {lexeme : Lexeme} (h : lexeme.endsExpr) : lexeme.endsOperand := by
  cases lexeme <;> simp_all [endsExpr]

theorem endsOperand_of_endsAt {lexeme : Lexeme} {least : Nat} (h : lexeme.endsAt least) :
    lexeme.endsOperand := by
  cases lexeme <;> simp_all [endsAt]

theorem endsAt_of_endsExpr {lexeme : Lexeme} (h : lexeme.endsExpr) (least : Nat) :
    lexeme.endsAt least := by
  cases lexeme with
  | symbol sign =>
    simp only [endsExpr, Bool.and_eq_true, Option.isNone_iff_eq_none] at h
    simp [endsAt, h]
  | _ => exact h

/-- What ends an expression ends one that must bind more tightly. -/
theorem endsAt_mono {lexeme : Lexeme} {least least' : Nat} (hle : least ≤ least')
    (h : lexeme.endsAt least) : lexeme.endsAt least' := by
  cases lexeme with
  | symbol sign =>
    simp only [endsAt, Bool.and_eq_true, Option.all_eq_true] at h ⊢
    refine ⟨h.1, fun joint hjoint => ?_⟩
    have hends := h.2 joint hjoint
    cases joint <;> simp only [Grammar.Joint.endsAt, decide_eq_true_eq] at hends ⊢ <;> omega
  | _ => exact h

theorem startsExpr_of_startsOperand {lexeme : Lexeme} (h : lexeme.startsOperand) :
    lexeme.startsExpr := by
  unfold startsExpr
  split <;> simp_all

theorem startsStmt_of_startsExpr {lexeme : Lexeme} (h : lexeme.startsExpr) :
    lexeme.startsStmt := by
  unfold startsStmt
  split <;> simp_all

/-- What ends a block or a case, or continues an `if` statement, does not start a
statement. -/
theorem startsStmt_not {lexeme : Lexeme} (h : lexeme.startsStmt) :
    Grammar.endsCase lexeme = false ∧ Grammar.endsBlock lexeme = false ∧
      lexeme.continuesIf = false := by
  revert h
  cases lexeme with
  | keyword word => cases word <;> decide
  | symbol sign => cases sign <;> decide
  | _ => simp [startsStmt, startsExpr, startsOperand, Grammar.endsCase, Grammar.endsBlock,
      continuesIf, isKeyword, isSymbol, isEnd]

end Lexeme

variable {bare : Bool} {numeral : Float → List Char}

/-- The first lexeme of a row that does not end the text has a property. -/
def Starts (has : Lexeme → Bool) (lexemes : List Lexeme) : Prop :=
  ∃ first rest, lexemes = first :: rest ∧ has first

theorem Starts.append {has : Lexeme → Bool} {lexemes : List Lexeme} (h : Starts has lexemes)
    (rest : List Lexeme) : Starts has (lexemes ++ rest) := by
  obtain ⟨first, more, rfl, hfirst⟩ := h
  exact ⟨first, more ++ rest, rfl, hfirst⟩

theorem Starts.imp {has has' : Lexeme → Bool} {lexemes : List Lexeme} (h : Starts has lexemes)
    (himp : ∀ {lexeme}, has lexeme → has' lexeme) : Starts has' lexemes := by
  obtain ⟨first, more, hcons, hfirst⟩ := h
  exact ⟨first, more, hcons, himp hfirst⟩

theorem Starts.head {has : Lexeme → Bool} {lexemes : List Lexeme} (h : Starts has lexemes)
    (rest : List Lexeme) : has ((lexemes ++ rest).headD .endOfInput) := by
  obtain ⟨first, more, rfl, hfirst⟩ := h
  exact hfirst

theorem Starts.not_isSymbol {has : Lexeme → Bool} {lexemes : List Lexeme} (h : Starts has lexemes)
    {sign : Symbol} (hsign : has (.symbol sign) = false) (rest : List Lexeme) :
    ((lexemes ++ rest).headD .endOfInput).isSymbol sign = false := by
  rw [Bool.eq_false_iff]
  intro heq
  have hfirst := h.head rest
  rw [Lexeme.isSymbol_iff.1 heq, hsign] at hfirst
  cases hfirst

theorem Starts.not_isKeyword {has : Lexeme → Bool} {lexemes : List Lexeme}
    (h : Starts has lexemes) {word : Keyword} (hword : has (.keyword word) = false)
    (rest : List Lexeme) : ((lexemes ++ rest).headD .endOfInput).isKeyword word = false := by
  rw [Bool.eq_false_iff]
  intro heq
  have hfirst := h.head rest
  rw [Lexeme.isKeyword_iff.1 heq, hword] at hfirst
  cases hfirst

theorem Expr.operand_starts (bare : Bool) (expr : Expr) :
    Starts Lexeme.startsOperand (expr.operand bare) := by
  unfold Expr.operand Expr.inside
  split
  · next hatom =>
    cases expr with
    | number | text | character | name => exact ⟨_, _, rfl, rfl⟩
    | boolean _ value => cases value <;> exact ⟨_, _, rfl, rfl⟩
    | _ => cases hatom
  · exact ⟨_, _, rfl, rfl⟩

/-- How the printed form of an expression starts: like an `if` statement only if it is a
choice, and not like the definition of a function. -/
theorem Expr.lexemes_first {expr : Expr} (h : expr.Everywhere (normalNodes numeral)) :
    ∃ first rest, expr.lexemes bare = first :: rest ∧ first.startsExpr ∧
      (first = .keyword .ifWord → expr.isChoice) ∧
      (first = .keyword .funcWord → ∃ more, rest = .symbol .leftParen :: more) := by
  have hinside : ∀ (inner : Expr) (more : List Lexeme),
      ∃ first rest, inner.inside (inner.lexemes bare) ++ more = first :: rest ∧ first.startsExpr ∧
        (first = .keyword .ifWord → expr.isChoice) ∧
        (first = .keyword .funcWord → ∃ more, rest = .symbol .leftParen :: more) := by
    intro inner more
    obtain ⟨first, rest, hcons, hfirst⟩ := (inner.operand_starts bare).append more
    refine ⟨first, rest, hcons, Lexeme.startsExpr_of_startsOperand hfirst, ?_, ?_⟩
    · rintro rfl
      cases hfirst
    · rintro rfl
      cases hfirst
  cases expr with
  | number | text | character | name | list => exact ⟨_, _, rfl, rfl, nofun, nofun⟩
  | boolean _ value => cases value <;> exact ⟨_, _, rfl, rfl, nofun, nofun⟩
  | index _ collection index => exact hinside collection _
  | binary _ left op right => exact hinside left _
  | unary _ op fixity operand =>
    cases fixity with
    | leading => cases op <;> exact ⟨_, _, rfl, rfl, nofun, nofun⟩
    | trailing => exact hinside operand _
  | ternary _ condition yes no => exact hinside condition _
  | assign _ target op value => exact hinside target _
  | call _ callee arguments =>
    cases callee with
    | named name => exact ⟨_, _, rfl, rfl, nofun, nofun⟩
    | computed function => exact hinside function _
  | function _ declaration =>
    obtain ⟨source, position, name, parameters, body⟩ := declaration
    obtain ⟨⟨hname, _⟩, _⟩ := h
    simp only at hname
    subst hname
    exact ⟨_, _, rfl, rfl, nofun, fun _ => ⟨_, rfl⟩⟩
  | choose => exact ⟨_, _, rfl, rfl, fun _ => rfl, nofun⟩
  | switch _ subject arms => exact hinside subject _
  | error _ _ => exact h.elim

/-- A printed expression that stands by itself does not start like another statement. -/
theorem Expr.whole_first (bare : Bool) {expr : Expr}
    (h : expr.Everywhere (normalNodes numeral)) :
    ∃ first rest, expr.whole bare = first :: rest ∧ first.startsExpr ∧
      first ≠ .keyword .ifWord ∧
      (first = .keyword .funcWord → ∃ more, rest = .symbol .leftParen :: more) := by
  unfold Expr.whole Expr.alone
  split
  · next hbare =>
    obtain ⟨first, rest, hcons, hfirst, hif, hfunc⟩ := Expr.lexemes_first h
    refine ⟨first, rest, hcons, hfirst, fun heq => ?_, hfunc⟩
    simp [hif heq] at hbare
  · obtain ⟨first, rest, hcons, hfirst⟩ := expr.operand_starts bare
    refine ⟨first, rest, hcons, Lexeme.startsExpr_of_startsOperand hfirst, ?_, ?_⟩
    · rintro rfl
      cases hfirst
    · rintro rfl
      cases hfirst

theorem Expr.whole_starts (bare : Bool) {expr : Expr} (h : expr.Everywhere (normalNodes numeral)) :
    Starts Lexeme.startsExpr (expr.whole bare) := by
  obtain ⟨first, rest, hcons, hfirst, _⟩ := Expr.whole_first bare h
  exact ⟨first, rest, hcons, hfirst⟩

theorem Stmt.lexemes_starts (bare : Bool) {statement : Stmt}
    (h : statement.Everywhere (normalNodes numeral)) :
    Starts Lexeme.startsStmt (statement.lexemes bare) := by
  cases statement with
  | expr expr => exact ((Expr.whole_starts bare h.2).imp Lexeme.startsStmt_of_startsExpr).append _
  | error => exact h.elim
  | _ => exact ⟨_, _, rfl, rfl⟩

theorem Stmt.lexemesAll_not_continuesIf {statements : List Stmt} {rest : List Lexeme}
    (h : Stmt.EverywhereAll (normalNodes numeral) statements)
    (hrest : (rest.headD .endOfInput).continuesIf = false) :
    ((Stmt.lexemesAll bare statements ++ rest).headD .endOfInput).continuesIf = false := by
  cases statements with
  | nil => exact hrest
  | cons first more =>
    rw [Stmt.lexemesAll, List.append_assoc]
    exact (Lexeme.startsStmt_not ((Stmt.lexemes_starts bare h.1).head _)).2.2

/-- The body of a case ends at the next case or at the closing brace. -/
theorem Case.lexemesAll_ends (bare : Bool) (cases : List Case) (rest : List Lexeme) :
    Grammar.endsCase ((Case.lexemesAll bare cases ++ .symbol .rightBrace :: rest).headD
        .endOfInput) ∧
      ((Case.lexemesAll bare cases ++ .symbol .rightBrace :: rest).headD
        .endOfInput).continuesIf = false := by
  cases cases with
  | nil => exact ⟨rfl, rfl⟩
  | cons first more =>
    obtain ⟨pattern, body⟩ := first
    cases pattern <;> exact ⟨rfl, rfl⟩

theorem bodiesClosed_cons {hasElse : Bool} {body : Stmt} {more : List Stmt}
    (h : bodiesClosed hasElse (body :: more)) (hopen : body.endsOpen) :
    more = [] ∧ hasElse = false := by
  simp only [bodiesClosed, hopen, Bool.not_true, Bool.false_or, Bool.and_eq_true,
    List.isEmpty_iff, Bool.not_eq_true'] at h
  exact h.1

theorem bodiesClosed_tail {hasElse : Bool} {body : Stmt} {more : List Stmt}
    (h : bodiesClosed hasElse (body :: more)) : bodiesClosed hasElse more := by
  rw [bodiesClosed, Bool.and_eq_true] at h
  exact h.2

theorem Declaration.lexemes_eq (declaration : Declaration) :
    declaration.lexemes bare = (declaration.name.map Lexeme.identifier).toList ++
      .symbol .leftParen :: (namesLexemes declaration.parameters ++
        .symbol .rightParen :: declaration.body.lexemes bare) := by
  cases declaration
  rw [Declaration.lexemes]

theorem Expr.lexemesMore_ends {exprs : List Expr} {rest : List Lexeme}
    (h : (rest.headD .endOfInput).endsExpr) :
    ((Expr.lexemesMore bare exprs ++ rest).headD .endOfInput).endsExpr := by
  cases exprs with
  | nil => exact h
  | cons => rfl

theorem Arm.lexemesMore_ends {arms : List Arm} {rest : List Lexeme}
    (h : (rest.headD .endOfInput).endsExpr) :
    ((Arm.lexemesMore bare arms ++ rest).headD .endOfInput).endsExpr := by
  cases arms with
  | nil => exact h
  | cons arm more =>
    cases arm
    rfl

theorem Arm.lexemesMore_cons (arm : Arm) (more : List Arm) :
    Arm.lexemesMore bare (arm :: more) = .symbol .comma :: Arm.lexemesRow bare (arm :: more) := by
  cases arm
  rfl

theorem Expr.lexemesPattern_not_endsBlock (pattern : Option Expr) (rest : List Lexeme) :
    Grammar.endsBlock ((Expr.lexemesPattern bare pattern ++ rest).headD .endOfInput) = false := by
  cases pattern with
  | none => rfl
  | some pattern =>
    have hstart := (pattern.operand_starts bare).head rest
    exact (Lexeme.startsStmt_not (Lexeme.startsStmt_of_startsExpr
      (Lexeme.startsExpr_of_startsOperand hstart))).2.1

theorem Branch.lexemesAll_ends {branches : List Branch} {rest : List Lexeme}
    (h : (rest.headD .endOfInput).endsExpr) :
    ((Branch.lexemesAll bare branches ++ rest).headD .endOfInput).endsExpr := by
  cases branches with
  | nil => exact h
  | cons branch more =>
    cases branch
    rfl

namespace Grammar

@[simp]
theorem calleeOf_unplaced (expr : Expr) : (calleeOf expr).unplaced = calleeOf expr.unplaced := by
  cases expr <;> rfl

theorem calleeOf_lexemes (expr : Expr) : (calleeOf expr).lexemes bare = expr.operand bare := by
  cases expr <;> rfl

theorem calleeOf_of_not_isName {expr : Expr} (h : ¬ expr.isName) :
    calleeOf expr = .computed expr := by
  cases expr with
  | name => exact absurd rfl h
  | _ => rfl

/-! ### Forms that are read from left to right -/

/-- The expression `whole` is `base` with a call, index, step or switch after it, whose
printed form is `tail`. -/
inductive SuffixForm (bare : Bool) : Expr → Expr → List Lexeme → Prop
  | call (p : Position) (function : Expr) (arguments : List Expr) :
    SuffixForm bare (.call p (calleeOf function) arguments) function
      (.symbol .leftParen :: (Expr.lexemesRow bare arguments ++ [.symbol .rightParen]))
  | index (p : Position) {collection : Expr} (index : Expr) :
    SuffixForm bare (.index p collection index) collection
      (.symbol .leftBracket :: (index.operand bare ++ [.symbol .rightBracket]))
  | increment (p : Position) {operand : Expr} :
    SuffixForm bare (.unary p .increment .trailing operand) operand [.symbol .increment]
  | decrement (p : Position) {operand : Expr} :
    SuffixForm bare (.unary p .decrement .trailing operand) operand [.symbol .decrement]
  | switch (p : Position) {subject : Expr} (arms : List Arm) :
    SuffixForm bare (.switch p subject arms) subject (.keyword .switchWord ::
      .symbol .leftBrace :: (Arm.lexemesRow bare arms ++ [.symbol .rightBrace]))

/-- The expression `whole` is `left` with a joint and operands after it, whose printed
forms are `sign` and `tail`. -/
inductive JointForm (bare : Bool) : Expr → Expr → Symbol → Joint → List Lexeme → Prop
  | assign (p : Position) {target : Expr} (op : Option BinaryOp) (value : Expr) :
    JointForm bare (.assign p target op value) target (assignSign op) (.assign op)
      (value.operand bare)
  | ternary (p : Position) {condition : Expr} (yes no : Expr) :
    JointForm bare (.ternary p condition yes no) condition .question .ternary
      (yes.operand bare ++ .symbol .colon :: no.operand bare)
  | binary (p : Position) {left : Expr} (op : BinaryOp) (level : Nat) (right : Expr)
    (h : joint? op.sign = some (.binary op level)) :
    JointForm bare (.binary p left op right) left op.sign (.binary op level)
      (right.operand bare)

namespace SuffixForm

variable {whole base : Expr} {tail : List Lexeme}

theorem lexemes_eq (h : SuffixForm bare whole base tail) :
    whole.lexemes bare = base.operand bare ++ tail := by
  cases h with
  | call => rw [Expr.lexemes, calleeOf_lexemes]
  | _ => rfl

theorem base_normal (h : SuffixForm bare whole base tail)
    (hwhole : whole.Everywhere (normalNodes numeral)) : base.Everywhere (normalNodes numeral) := by
  cases h with
  | call =>
    cases base with
    | name => exact hwhole.1
    | _ => exact hwhole.2.1
  | index => exact hwhole.2.1
  | increment => exact hwhole.2
  | decrement => exact hwhole.2
  | switch => exact hwhole.2.1

end SuffixForm

namespace JointForm

variable {whole left : Expr} {sign : Symbol} {joint : Joint} {tail : List Lexeme}

theorem lexemes_eq (h : JointForm bare whole left sign joint tail) :
    whole.lexemes bare = left.operand bare ++ .symbol sign :: tail := by
  cases h <;> rfl

theorem left_normal (h : JointForm bare whole left sign joint tail)
    (hwhole : whole.Everywhere (normalNodes numeral)) : left.Everywhere (normalNodes numeral) := by
  cases h <;> exact hwhole.2.1

theorem joint_eq (h : JointForm bare whole left sign joint tail)
    (hwhole : whole.Everywhere (normalNodes numeral)) : joint? sign = some joint := by
  cases h with
  | assign p op value =>
    cases op with
    | none => rfl
    | some op =>
      have hop := hwhole.1
      cases op <;> first | rfl | cases hop
  | ternary => rfl
  | binary p op level right h => exact h

theorem sign_endsOperand (h : JointForm bare whole left sign joint tail) :
    (Lexeme.symbol sign).endsOperand := by
  cases h with
  | assign p op value =>
    cases op with
    | none => rfl
    | some op => cases op <;> rfl
  | ternary => rfl
  | binary p op => cases op <;> rfl

end JointForm

end Grammar

end Betty
