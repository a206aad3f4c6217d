import Betty.Proofs.Parser.Reads

/-!
# What the rules for expressions do

The rules of the grammar use each other, so the specification of each is shown for more
fuel from those of all of them for less.

A rule that takes no token before it uses another one needs more fuel than that one. The
numbers added to `16 * input.ahead.length` below count these uses.

## Main definitions

* `Rules`: the specifications of all rules that use each other.
-/

namespace Betty.Grammar

open Reading

/-- An assignment is plain, or combined with an arithmetic operator. -/
def Joint.Sound : Joint → Prop
  | .assign (some op) => op ∈ BinaryOp.compound
  | _ => True

section

variable {α : Type} (outlook : Outlook) (given : List Position) (product : Product α)
  (fuel rank : Nat) (rule : Reading α)

/-- A rule that takes a token, and no closing brace without its opening one. -/
abbrev Part : Prop :=
  ∀ {n opens fresh input}, outlook.Braces ⟨n, opens, fresh⟩ input →
    Reads outlook input 1 given product (outlook.Braces ⟨n, opens, true⟩)
      (outlook.Braces (.loose n)) (fuel < 16 * input.ahead.length + rank) (rule input)

/-- A rule for what may follow a part. -/
abbrev Rest : Prop :=
  ∀ {n opens input}, outlook.Braces ⟨n, opens, true⟩ input →
    Reads outlook input 0 given product (outlook.Braces ⟨n, opens, true⟩)
      (outlook.Braces (.loose n)) (fuel < 16 * input.ahead.length + rank) (rule input)

/-- A rule that may end with a brace. -/
abbrev Whole (least : Nat) : Prop :=
  ∀ {n input}, outlook.Braces (.loose n) input →
    Reads outlook input least given product (outlook.Braces (.loose n))
      (outlook.Braces (.loose n)) (fuel < 16 * input.ahead.length + rank) (rule input)

end

/-- The rules that use each other meet their specifications, with the given fuel. -/
structure Rules (outlook : Outlook) (fuel : Nat) : Prop where
  expression : ∀ least, Part outlook [] outlook.expr fuel 3 (expression fuel least)
  joined : ∀ least left, Rest outlook left.declared
    (outlook.expr.under (left.Everywhere outlook.check)) fuel 1 (joined fuel least left)
  operands : ∀ left joint, joint.Sound → Part outlook left.declared
    (outlook.expr.under (left.Everywhere outlook.check)) fuel 4 (operands fuel left joint)
  unary : Part outlook [] outlook.expr fuel 2 (unary fuel)
  suffixed : ∀ expr, Rest outlook expr.declared
    (outlook.expr.under (expr.Everywhere outlook.check)) fuel 1 (suffixed fuel expr)
  arguments : Part outlook [] outlook.exprs fuel 4 (arguments fuel)
  items : Rest outlook [] outlook.exprs fuel 1 (items fuel)
  arms : ∀ closed {n opens input}, outlook.Braces ⟨n, opens, false⟩ input →
    Reads outlook input 0 [] (outlook.arms closed) (outlook.Braces ⟨n, opens, false⟩)
      (outlook.Braces (.loose n)) (fuel < 16 * input.ahead.length + 5) (arms fuel closed input)
  armPattern : Part outlook [] outlook.optional fuel 4 (armPattern fuel)
  primary : Part outlook [] outlook.expr fuel 1 (primary fuel)
  listOrRange : ∀ place, Part outlook [] outlook.expr fuel 4 (listOrRange fuel place)
  branches : Rest outlook [] outlook.branches fuel 1 (branches fuel)
  function : ∀ place name, Whole outlook [place] (outlook.function (· = name)) fuel 2
    (function fuel place name) 1
  block : ∀ {n input}, input.current.lexeme = .symbol .leftBrace →
    outlook.Braces (.loose n) input → Reads outlook input 1 [] outlook.stmts
      (outlook.Braces (.loose n)) (fun _ => False) (fuel < 16 * input.ahead.length + 1)
      (block fuel input)
  statements : ∀ ends {n input}, ends .endOfInput = true → ends (.symbol .rightBrace) = true →
    outlook.Braces (.loose n) input → Reads outlook input 0 [] outlook.stmts
      (outlook.Braces (.loose n)) (fun _ => False) (fuel < 16 * input.ahead.length + 7)
      (statements fuel ends input)
  recovered : ∀ {n input},
    (outlook.mild.isSome → input.current.lexeme.isSymbol .rightBrace = false) →
    outlook.Braces (.loose n) input → Reads outlook input (min 1 input.ahead.length) []
      outlook.stmt (outlook.Braces (.loose n)) (fun _ => False)
      (fuel < 16 * input.ahead.length + 6) (recovered fuel input)
  statement : Whole outlook [] outlook.stmt fuel 5 (statement fuel) 1
  exprStatement : Whole outlook [] outlook.stmt fuel 4 (exprStatement fuel) 1
  definition : ∀ {n input}, input.current.lexeme = .keyword .funcWord →
    outlook.Braces (.loose n) input → Reads outlook input 1 [] (outlook.function (·.isSome))
      (outlook.Braces (.loose n)) (outlook.Braces (.loose n))
      (fuel < 16 * input.ahead.length + 1) (definition fuel input)
  condition : Part outlook [] outlook.expr fuel 4 (condition fuel)
  optional : ∀ sign {n input}, (Lexeme.symbol sign).isSymbol .rightBrace = false →
    outlook.Braces (.loose n) input → Reads outlook input 0 [] outlook.optional
      (outlook.Braces ⟨n, false, true⟩) (outlook.Braces (.loose n))
      (fuel < 16 * input.ahead.length + 4) (optional fuel sign input)
  clauses : Whole outlook [] outlook.clauses fuel 1 (clauses fuel) 0
  cases : ∀ closed {n input}, outlook.Held n input →
    Reads outlook input 0 [] (outlook.cases closed) (outlook.Braces (.loose (n + 1)))
      (outlook.Braces (.loose n)) (fuel < 16 * input.ahead.length + 1) (cases fuel closed input)
  caseBody : ∀ pattern, Whole outlook (Expr.declaredOption pattern)
    ((outlook.caseOf pattern).under (Expr.EverywhereOption outlook.check pattern)) fuel 8
    (caseBody fuel pattern) 0

/-! ### Signs and calls -/

theorem joint?_sound {sign : Symbol} {joint : Joint} (h : joint? sign = some joint) :
    joint.Sound := by
  cases sign <;> cases h <;> simp [Joint.Sound, BinaryOp.compound]

theorem joint?_inner {sign : Symbol} {joint : Joint} (h : joint? sign = some joint) :
    ((Lexeme.symbol sign).isPlain && !(Lexeme.symbol sign).endsPart) = true := by
  cases sign <;> first | rfl | cases h

theorem leadingOp?_inner {sign : Symbol} {op : UnaryOp} (h : leadingOp? sign = some op) :
    ((Lexeme.symbol sign).isPlain && !(Lexeme.symbol sign).endsPart) = true := by
  cases sign <;> first | rfl | cases h

theorem calleeOf_declared (expr : Expr) : (calleeOf expr).declared = expr.declared := by
  cases expr <;> rfl

/-- A call of an expression passes if what it is made of does. -/
theorem Outlook.call_everywhere (outlook : Outlook) {expr : Expr} {arguments : List Expr}
    (hexpr : expr.Everywhere outlook.check)
    (harguments : Expr.EverywhereAll outlook.check arguments) (place : Position) :
    (Expr.call place (calleeOf expr) arguments).Everywhere outlook.check := by
  cases expr with
  | name => exact ⟨outlook.passesExpr trivial, trivial, harguments⟩
  | _ => exact ⟨outlook.passesExpr Bool.false_ne_true, hexpr, harguments⟩

/-! ### Braces of switch expressions -/

section

variable {outlook : Outlook} {n : Int} {opens fresh : Bool} {input : Input}

/-- As `Held`, in a switch after an expression. Among controls its brace is missing, and then
the switch comes to an end before the next one. -/
def Outlook.HeldInner (outlook : Outlook) (n : Int) (input : Input) : Prop :=
  (outlook.mild ≠ some true ∧ outlook.Braces (.loose (n + 1)) input) ∨
    outlook.Braces ⟨n, true, true⟩ input

/-- After the word of a switch. Among controls a parenthesis follows it. -/
def Outlook.Switching (outlook : Outlook) (n : Int) (input : Input) : Prop :=
  outlook.Braces ⟨n, true, true⟩ input ∧
    (outlook.mild = some true → input.current.lexeme.isSymbol .leftParen = true)

theorem Outlook.Braces.takeSwitching (h : outlook.Braces ⟨n, opens, fresh⟩ input)
    (hfound : input.current.lexeme = .keyword .switchWord) :
    outlook.Switching n input.advance := by
  refine ⟨h.takeSwitch hfound, fun hmild => ?_⟩
  rw [Input.current_lexeme]
  exact (((h true hmild).fits hfound rfl).switch rfl).2 rfl

theorem expectOpenInner_reads (h : outlook.Switching n input) :
    Reads outlook input 0 [] .nothing (outlook.HeldInner n) (fun _ => False) False
      (expectSymbol .leftBrace input) := by
  obtain ⟨h, hparen⟩ := h
  refine expect_reads h (fun hfound => .inl ⟨fun hmild => ?_, h.takeOpen hfound⟩) fun _ => .inr
  have hsign := hparen hmild
  rw [hfound] at hsign
  cases hsign

theorem expectCloseInner_reads (h : outlook.HeldInner n input) :
    Reads outlook input 0 [] .nothing (outlook.Braces ⟨n, false, true⟩) (fun _ => False) False
      (expectSymbol .rightBrace input) := by
  obtain ⟨hmild, h⟩ | h := h
  · refine expect_reads h (fun hfound => (h.takeClose hfound).uncontrolled hmild) ?_
    exact fun _ hafter => (hafter.weaken (by omega)).uncontrolled hmild
  · refine expect_reads h (fun hfound => h.barred (by rw [hfound]; rfl)) ?_
    exact fun _ hafter => hafter.unopened

end

namespace Rules

variable {outlook : Outlook} {fuel : Nat}

/-! ### Expressions and operators -/

theorem expression_succ (ih : Rules outlook fuel) (least : Nat) :
    Part outlook [] outlook.expr (fuel + 1) 3 (Grammar.expression (fuel + 1) least) := by
  intro n opens fresh input b
  rw [Grammar.expression]
  simp only [Reads, Action.meets_bind]
  refine (ih.unary b).step (.refl outlook [] input) (fun _ => id) (by omega)
    fun first i₁ h₁ b₁ l₁ => ?_
  refine (ih.joined least first b₁).extend h₁ (.refl _) (fun _ => id) (by omega)
    fun whole i₂ h₂ b₂ l₂ => ?_
  refine ⟨h₂.imp (.refl _) ?_, b₂, by omega⟩
  rintro ⟨⟨_, hfirst⟩, hwhole⟩
  exact hwhole hfirst

theorem joined_succ (ih : Rules outlook fuel) (least : Nat) (left : Expr) :
    Rest outlook left.declared (outlook.expr.under (left.Everywhere outlook.check)) (fuel + 1) 1
      (Grammar.joined (fuel + 1) least left) := by
  intro n opens input b
  have hend : Reads outlook input 0 left.declared
      (outlook.expr.under (left.Everywhere outlook.check)) (outlook.Braces ⟨n, opens, true⟩)
      (outlook.Braces (.loose n)) (fuel + 1 < 16 * input.ahead.length + 1)
      ((pure left : Reading Expr) input) :=
    ⟨(Reached.refl outlook left.declared input).imp (.refl _) fun _ => id, b, Nat.le_refl _⟩
  rw [Grammar.joined]
  refine (meets_lexeme _).2 fun found hfound => ?_
  split
  · next sign =>
    cases hjoint : joint? sign with
    | some joint =>
      dsimp only
      split
      · exact hend
      · simp only [Action.meets_bind]
        refine (take_reads hfound (joint?_inner hjoint) b).pass (.refl outlook left.declared input)
          fun _ i₁ h₁ b₁ l₁ => ?_
        refine (ih.operands left joint (joint?_sound hjoint) b₁).extend h₁ (.refl _) (fun _ => id)
          (by omega) fun whole i₂ h₂ b₂ l₂ => ?_
        refine (ih.joined least whole b₂).extend h₂ (.refl _) (fun _ => id) (by omega)
          fun result i₃ h₃ b₃ l₃ => ?_
        refine ⟨h₃.imp (.refl _) ?_, b₃, by omega⟩
        rintro ⟨⟨_, hwhole⟩, hresult⟩ hleft
        exact hresult (hwhole hleft)
    | none => exact hend
  · exact hend

theorem operands_succ (ih : Rules outlook fuel) (left : Expr) (joint : Joint)
    (hjoint : joint.Sound) :
    Part outlook left.declared (outlook.expr.under (left.Everywhere outlook.check)) (fuel + 1) 4
      (Grammar.operands (fuel + 1) left joint) := by
  intro n opens fresh input b
  have hstart := Reached.refl outlook left.declared input
  cases joint with
  | assign op =>
    rw [Grammar.operands]
    simp only [Reads, Action.meets_bind]
    refine (ih.expression _ b).step hstart (fun _ => id) (by omega) fun value i₁ h₁ b₁ l₁ => ?_
    refine ⟨h₁.imp (.refl _) ?_, b₁, l₁⟩
    rintro ⟨_, hvalue⟩ hleft
    refine ⟨outlook.passesExpr ?_, hleft, hvalue⟩
    cases op with
    | none => trivial
    | some op => exact hjoint
  | ternary =>
    rw [Grammar.operands]
    simp only [Reads, Action.meets_bind]
    refine (ih.expression _ b).step hstart (fun _ => id) (by omega) fun yes i₁ h₁ b₁ l₁ => ?_
    refine (expectSymbol_reads rfl b₁).pass h₁ fun _ i₂ h₂ b₂ l₂ => ?_
    refine (ih.expression _ b₂).step h₂ (fun _ => id) (by omega) fun no i₃ h₃ b₃ l₃ => ?_
    refine ⟨h₃.imp (.refl _) ?_, b₃, by omega⟩
    rintro ⟨⟨_, hyes⟩, hno⟩ hleft
    exact ⟨outlook.passesExpr trivial, hleft, hyes, hno⟩
  | binary op level =>
    rw [Grammar.operands]
    simp only [Reads, Action.meets_bind]
    refine (ih.expression _ b).step hstart (fun _ => id) (by omega) fun right i₁ h₁ b₁ l₁ => ?_
    refine ⟨h₁.imp (.refl _) ?_, b₁, l₁⟩
    rintro ⟨_, hright⟩ hleft
    exact ⟨outlook.passesExpr trivial, hleft, hright⟩

theorem unary_succ (ih : Rules outlook fuel) :
    Part outlook [] outlook.expr (fuel + 1) 2 (Grammar.unary (fuel + 1)) := by
  intro n opens fresh input b
  have hstart := Reached.refl outlook [] input
  have hsuffixed : Reads outlook input 1 [] outlook.expr (outlook.Braces ⟨n, opens, true⟩)
      (outlook.Braces (.loose n)) (fuel + 1 < 16 * input.ahead.length + 2)
      ((do
        let operand ← Grammar.primary fuel
        Grammar.suffixed fuel operand : Reading Expr) input) := by
    simp only [Reads, Action.meets_bind]
    refine (ih.primary b).step hstart (fun _ => id) (by omega) fun operand i₁ h₁ b₁ l₁ => ?_
    refine (ih.suffixed operand b₁).extend h₁ (.refl _) (fun _ => id) (by omega)
      fun whole i₂ h₂ b₂ l₂ => ?_
    refine ⟨h₂.imp (.refl _) ?_, b₂, by omega⟩
    rintro ⟨⟨_, hoperand⟩, hwhole⟩
    exact hwhole hoperand
  rw [Grammar.unary]
  refine (meets_position _).2 ((meets_lexeme _).2 fun found hfound => ?_)
  split
  · next sign =>
    cases hleading : leadingOp? sign with
    | some op =>
      simp only [Action.meets_bind]
      refine (take_reads hfound (leadingOp?_inner hleading) b).pass hstart
        fun _ i₁ h₁ b₁ l₁ => ?_
      refine (ih.unary b₁).step h₁ (fun _ => id) (by omega) fun operand i₂ h₂ b₂ l₂ => ?_
      refine ⟨h₂.imp (.refl _) ?_, b₂, by omega⟩
      rintro ⟨_, hoperand⟩
      exact ⟨outlook.passesExpr trivial, hoperand⟩
    | none => exact hsuffixed
  · exact hsuffixed

/-! ### Suffixes -/

/-- The arms of a switch after an expression. -/
theorem arms_inner (ih : Rules outlook fuel) {n : Int} {input : Input}
    (h : outlook.HeldInner n input) :
    Reads outlook input 0 [] (outlook.arms false) (outlook.HeldInner n) (outlook.Braces (.loose n))
      (fuel < 16 * input.ahead.length + 5) (Grammar.arms fuel false input) := by
  obtain ⟨hmild, h⟩ | h := h
  · exact (ih.arms false h).imp (Nat.le_refl _) (fun _ hafter => .inl ⟨hmild, hafter⟩)
      (fun _ hafter => hafter.weaken (by omega)) id
  · exact (ih.arms false h.stale).imp (Nat.le_refl _) (fun _ hafter => .inr hafter.opened)
      (fun _ => id) id

theorem suffixed_succ (ih : Rules outlook fuel) (expr : Expr) :
    Rest outlook expr.declared (outlook.expr.under (expr.Everywhere outlook.check)) (fuel + 1) 1
      (Grammar.suffixed (fuel + 1) expr) := by
  intro n opens input b
  have hstart := Reached.refl outlook expr.declared input
  -- A step after the expression.
  have hstep : ∀ {found : Lexeme} (op : UnaryOp), op = .increment ∨ op = .decrement →
      input.current.lexeme = found → (found.isPlain && !found.endsPart) = true →
      Reads outlook input 0 expr.declared
        (outlook.expr.under (expr.Everywhere outlook.check)) (outlook.Braces ⟨n, opens, true⟩)
        (outlook.Braces (.loose n)) (fuel + 1 < 16 * input.ahead.length + 1)
        ((do
          advance
          Grammar.suffixed fuel (.unary expr.position op .trailing expr) : Reading Expr)
          input) := by
    intro found op hop hfound hinner
    simp only [Reads, Action.meets_bind]
    refine (take_reads hfound hinner b).pass hstart fun _ i₁ h₁ b₁ l₁ => ?_
    refine (ih.suffixed _ b₁).extend h₁ (.refl _) (fun _ => id) (by omega)
      fun whole i₂ h₂ b₂ l₂ => ?_
    refine ⟨h₂.imp (.refl _) ?_, b₂, by omega⟩
    rintro ⟨_, hwhole⟩ hexpr
    exact hwhole ⟨outlook.passesExpr hop, hexpr⟩
  rw [Grammar.suffixed]
  refine (meets_lexeme _).2 fun found hfound => ?_
  split
  · -- Arguments: the expression so far is called.
    simp only [Action.meets_bind]
    refine (take_reads hfound rfl b).pass hstart fun _ i₁ h₁ b₁ l₁ => ?_
    refine (ih.arguments b₁).step h₁ (fun _ => id) (by omega) fun arguments i₂ h₂ b₂ l₂ => ?_
    refine (ih.suffixed _ b₂).extend h₂ ?_ (fun _ => id) (by omega) fun whole i₃ h₃ b₃ l₃ => ?_
    · rw [Expr.declared, calleeOf_declared]
      exact .refl _
    refine ⟨h₃.imp (.refl _) ?_, b₃, by omega⟩
    rintro ⟨⟨_, harguments⟩, hwhole⟩ hexpr
    exact hwhole (outlook.call_everywhere hexpr harguments _)
  · -- An index.
    simp only [Action.meets_bind]
    refine (take_reads hfound rfl b).pass hstart fun _ i₁ h₁ b₁ l₁ => ?_
    refine (ih.expression _ b₁).step h₁ (fun _ => id) (by omega) fun index i₂ h₂ b₂ l₂ => ?_
    refine (expectSymbol_reads rfl b₂).pass h₂ fun _ i₃ h₃ b₃ l₃ => ?_
    refine (ih.suffixed _ b₃).extend h₃ (.refl _) (fun _ => id) (by omega)
      fun whole i₄ h₄ b₄ l₄ => ?_
    refine ⟨h₄.imp (.refl _) ?_, b₄, by omega⟩
    rintro ⟨⟨_, hindex⟩, hwhole⟩ hexpr
    exact hwhole ⟨outlook.passesExpr trivial, hexpr, hindex⟩
  · exact hstep _ (.inl rfl) hfound rfl
  · exact hstep _ (.inr rfl) hfound rfl
  · -- A switch.
    simp only [Action.meets_bind]
    refine (seen_reads outlook hfound rfl (b.takeSwitching hfound)).pass hstart
      fun _ i₁ h₁ b₁ l₁ => ?_
    refine (expectOpenInner_reads b₁).pass h₁ fun _ i₂ h₂ b₂ l₂ => ?_
    refine (ih.arms_inner b₂).step h₂ (fun _ => id) (by omega) fun arms i₃ h₃ b₃ l₃ => ?_
    refine (expectCloseInner_reads b₃).pass h₃ fun _ i₄ h₄ b₄ l₄ => ?_
    have b₄ := b.reopen (by rw [hfound]; rfl) b₄
    refine (ih.suffixed _ b₄).extend h₄ (.refl _) (fun _ => id) (by omega)
      fun whole i₅ h₅ b₅ l₅ => ?_
    refine ⟨h₅.imp (.refl _) ?_, b₅, by omega⟩
    rintro ⟨⟨_, harms, hkept⟩, hwhole⟩ hexpr
    exact hwhole ⟨outlook.passesExpr hkept.1, hexpr, harms⟩
  · -- No suffix, so nothing is taken.
    exact ⟨hstart.imp (.refl _) fun _ => id, b, Nat.le_refl _⟩

theorem arguments_succ (ih : Rules outlook fuel) :
    Part outlook [] outlook.exprs (fuel + 1) 4 (Grammar.arguments (fuel + 1)) := by
  intro n opens fresh input b
  have hstart := Reached.refl outlook [] input
  rw [Grammar.arguments]
  simp only [Reads, atSymbol, Action.meets_bind, Action.meets_gets]
  split
  · next hclose =>
    simp only [Action.meets_bind]
    refine (take_reads (Lexeme.isSymbol_iff.1 hclose) rfl b).pass hstart fun _ i₁ h₁ b₁ l₁ => ?_
    exact ⟨h₁, b₁, l₁⟩
  · simp only [Action.meets_bind]
    refine (ih.expression _ b).step hstart (fun _ => id) (by omega) fun first i₁ h₁ b₁ l₁ => ?_
    refine (ih.items b₁).step h₁ (fun _ => id) (by omega) fun rest i₂ h₂ b₂ l₂ => ?_
    refine (expectSymbol_reads rfl b₂).pass h₂ fun _ i₃ h₃ b₃ l₃ => ?_
    refine ⟨h₃.imp (.refl _) ?_, b₃, by omega⟩
    rintro ⟨⟨_, hfirst⟩, hrest⟩
    exact ⟨hfirst, hrest⟩

theorem items_succ (ih : Rules outlook fuel) :
    Rest outlook [] outlook.exprs (fuel + 1) 1 (Grammar.items (fuel + 1)) := by
  intro n opens input b
  have hstart := Reached.refl outlook [] input
  rw [Grammar.items]
  simp only [Reads, atSymbol, Action.meets_bind, Action.meets_gets]
  split
  · next hcomma =>
    simp only [Action.meets_bind]
    refine (take_reads (Lexeme.isSymbol_iff.1 hcomma) rfl b).pass hstart fun _ i₁ h₁ b₁ l₁ => ?_
    refine (ih.expression _ b₁).step h₁ (fun _ => id) (by omega) fun item i₂ h₂ b₂ l₂ => ?_
    refine (ih.items b₂).step h₂ (fun _ => id) (by omega) fun rest i₃ h₃ b₃ l₃ => ?_
    refine ⟨h₃.imp (.refl _) ?_, b₃, by omega⟩
    rintro ⟨⟨_, hitem⟩, hrest⟩
    exact ⟨hitem, hrest⟩
  · exact ⟨hstart, b, Nat.le_refl _⟩

theorem armPattern_succ (ih : Rules outlook fuel) :
    Part outlook [] outlook.optional (fuel + 1) 4 (Grammar.armPattern (fuel + 1)) := by
  intro n opens fresh input b
  have hstart := Reached.refl outlook [] input
  rw [Grammar.armPattern]
  simp only [Reads, atKeyword, Action.meets_bind, Action.meets_gets]
  split
  · next hunderscore =>
    simp only [Action.meets_bind]
    refine (take_reads (Lexeme.isKeyword_iff.1 hunderscore) rfl b).pass hstart
      fun _ i₁ h₁ b₁ l₁ => ?_
    exact ⟨h₁, b₁, l₁⟩
  · simp only [Action.meets_bind]
    refine (ih.expression _ b).step hstart (fun _ => id) (by omega) fun pattern i₁ h₁ b₁ l₁ => ?_
    exact ⟨h₁.imp (.refl _) And.right, b₁, l₁⟩

theorem armRound_reads (ih : Rules outlook fuel) (closed : Bool) {n : Int} {opens : Bool}
    {input : Input} (b : outlook.Braces ⟨n, opens, false⟩ input) :
    RoundReads outlook input Arm.declaredAll
      (fun found next => Arm.EverywhereAll outlook.check found ∧
        KeptRound closed (found.map Arm.pattern) next)
      (outlook.Braces ⟨n, opens, false⟩) (outlook.Braces ⟨n, opens, false⟩)
      (outlook.Braces (.loose n)) (fuel + 1 < 16 * input.ahead.length + 5)
      (armRound fuel closed input) := by
  unfold armRound
  refine (meets_lexeme _).2 fun found _ => ?_
  split
  · exact ⟨(Reached.refl outlook [] input).imp (.refl _) fun _ => ⟨trivial, .stopped⟩,
      Nat.le_refl _, b⟩
  · refine reportIf_pass outlook (fun error h => h.report error) b fun i₁ h₁ b₁ hahead _ => ?_
    have l₁ := congrArg List.length hahead
    simp only [atSymbol, Action.meets_bind, Action.meets_gets]
    refine (ih.armPattern b₁).step h₁ (fun _ => id) (by omega) fun pattern i₂ h₂ b₂ l₂ => ?_
    refine (expectSymbol_reads rfl b₂).pass h₂ fun _ i₃ h₃ b₃ l₃ => ?_
    refine (ih.expression _ b₃).step h₃ (fun _ => id) (by omega) fun result i₄ h₄ b₄ l₄ => ?_
    have hfound : Reached outlook input [] i₄
        (Arm.declaredAll (if closed then [] else [⟨pattern, result⟩]))
        (Arm.EverywhereAll outlook.check (if closed then [] else [⟨pattern, result⟩])) := by
      refine h₄.imp ?_ ?_
      · split
        · exact List.nil_sublist _
        · simp [Arm.declaredAll, Outlook.optional, Outlook.expr]
      · rintro ⟨⟨_, hpattern⟩, hresult⟩
        split
        · trivial
        · exact ⟨hpattern, hresult, trivial⟩
    split
    · next hcomma =>
      simp only [Action.meets_bind]
      refine (take_reads (Lexeme.isSymbol_iff.1 hcomma) rfl b₄).pass hfound
        fun _ i₅ h₅ b₅ l₅ => ?_
      refine ⟨h₅.imp (.refl _) fun hsound => ⟨hsound, keptRound_one Arm.pattern closed _ ?_⟩,
        by omega, b₅.stale, by omega⟩
      rintro _ ⟨⟩
      exact id
    · refine ⟨hfound.imp (.refl _) fun hsound => ⟨hsound, keptRound_one Arm.pattern closed _ ?_⟩,
        by omega, b₄.stale⟩
      rintro _ ⟨⟩

theorem arms_succ (ih : Rules outlook fuel) (closed : Bool) {n : Int} {opens : Bool}
    {input : Input} (b : outlook.Braces ⟨n, opens, false⟩ input) :
    Reads outlook input 0 [] (outlook.arms closed) (outlook.Braces ⟨n, opens, false⟩)
      (outlook.Braces (.loose n)) (fuel + 1 < 16 * input.ahead.length + 5)
      (Grammar.arms (fuel + 1) closed input) := by
  refine arms_repeats.reads_succ outlook.arms (fun _ => rfl) Arm.declaredAll_append ?_ ?_
    (ih.armRound_reads closed b) fun state _ b => ih.arms state b
  · rintro found ⟨hfound, hround⟩
    exact ⟨hfound, hround.kept⟩
  · rintro found next rest ⟨hfound, hround⟩ ⟨hrest, hkept⟩
    refine ⟨Arm.everywhereAll_append hfound hrest, ?_⟩
    rw [List.map_append]
    exact hround.append hkept

/-! ### Operands -/

theorem primary_succ (ih : Rules outlook fuel) :
    Part outlook [] outlook.expr (fuel + 1) 1 (Grammar.primary (fuel + 1)) := by
  intro n opens fresh input b
  have hstart := Reached.refl outlook [] input
  have hatom : ∀ {found : Lexeme} (expr : Expr), input.current.lexeme = found →
      (found.isPlain && !found.endsPart) = true → expr.declared = [] →
      expr.Everywhere outlook.check →
      Reads outlook input 1 [] outlook.expr (outlook.Braces ⟨n, opens, true⟩)
        (outlook.Braces (.loose n)) (fuel + 1 < 16 * input.ahead.length + 1)
        ((do
          advance
          return expr : Reading Expr) input) := by
    intro found expr hfound hinner hdeclared hexpr
    simp only [Reads, Action.meets_bind]
    refine (take_reads hfound hinner b).pass hstart fun _ i₁ h₁ b₁ l₁ => ?_
    exact ⟨h₁.imp (List.sublist_nil.2 hdeclared) fun _ => hexpr, b₁, l₁⟩
  rw [Grammar.primary]
  refine (meets_position _).2 ((meets_lexeme _).2 fun found hfound => ?_)
  split
  -- The six kinds of atoms.
  · exact hatom _ hfound rfl rfl (outlook.passesExpr trivial)
  · exact hatom _ hfound rfl rfl (outlook.passesExpr trivial)
  · exact hatom _ hfound rfl rfl (outlook.passesExpr trivial)
  · exact hatom _ hfound rfl rfl (outlook.passesExpr trivial)
  · exact hatom _ hfound rfl rfl (outlook.passesExpr trivial)
  · exact hatom _ hfound rfl rfl (outlook.passesExpr trivial)
  · -- A function literal, which is at the place of its keyword.
    simp only [Action.meets_bind]
    refine (take_reads hfound rfl b).step hstart (fun _ => False.elim) False.elim
      fun _ i₁ h₁ b₁ l₁ => ?_
    refine (ih.function _ _ b₁.loosen).extend h₁ (.refl _) (fun _ => id) (by omega)
      fun declaration i₂ h₂ b₂ l₂ => ?_
    refine ⟨h₂.imp (.refl _) ?_, b.afterFunction hfound b₂, by omega⟩
    rintro ⟨_, hname, hblock, hdeclaration⟩
    exact ⟨outlook.passesExpr ⟨hname, hblock⟩, hdeclaration⟩
  · -- An `if` expression, which cannot be without its `else`.
    simp only [Action.meets_bind]
    refine (take_reads hfound rfl b).pass hstart fun _ i₁ h₁ b₁ l₁ => ?_
    refine (ih.expression _ b₁).step h₁ (fun _ => id) (by omega) fun condition i₂ h₂ b₂ l₂ => ?_
    refine (expectKeyword_reads _ b₂).pass h₂ fun _ i₃ h₃ b₃ l₃ => ?_
    refine (ih.expression _ b₃).step h₃ (fun _ => id) (by omega) fun yes i₄ h₄ b₄ l₄ => ?_
    refine (ih.branches b₄).step h₄ (fun _ => id) (by omega) fun branches i₅ h₅ b₅ l₅ => ?_
    refine (expectKeyword_reads _ b₅).pass h₅ fun _ i₆ h₆ b₆ l₆ => ?_
    refine (ih.expression _ b₆).step h₆ (fun _ => id) (by omega) fun otherwise i₇ h₇ b₇ l₇ => ?_
    refine ⟨h₇.imp (.refl _) ?_, b₇, by omega⟩
    rintro ⟨⟨⟨⟨_, hcondition⟩, hyes⟩, hbranches⟩, hotherwise⟩
    exact ⟨outlook.passesExpr trivial, hcondition, hyes, hbranches, hotherwise⟩
  · -- An expression in parentheses.
    simp only [Action.meets_bind]
    refine (take_reads hfound rfl b).pass hstart fun _ i₁ h₁ b₁ l₁ => ?_
    refine (ih.expression _ b₁).step h₁ (fun _ => id) (by omega) fun inner i₂ h₂ b₂ l₂ => ?_
    refine (expectSymbol_reads rfl b₂).pass h₂ fun _ i₃ h₃ b₃ l₃ => ?_
    exact ⟨h₃.imp (.refl _) And.right, b₃, by omega⟩
  · -- A list or a range.
    simp only [Action.meets_bind]
    refine (take_reads hfound rfl b).pass hstart fun _ i₁ h₁ b₁ l₁ => ?_
    refine (ih.listOrRange _ b₁).step h₁ (fun _ => id) (by omega) fun whole i₂ h₂ b₂ l₂ => ?_
    exact ⟨h₂.imp (.refl _) And.right, b₂, by omega⟩
  · -- A malformed token becomes an error node.
    simp only [Action.meets_bind]
    refine (absorb_reads hfound b).step hstart (fun _ => False.elim) False.elim
      fun _ i₁ h₁ b₁ l₁ => ?_
    exact ⟨h₁.imp (.refl _) fun h => outlook.passesExpr h.2, b₁, l₁⟩
  · -- Nothing else starts an expression.
    exact reject_reads b.loosen

theorem listOrRange_succ (ih : Rules outlook fuel) (place : Position) :
    Part outlook [] outlook.expr (fuel + 1) 4 (Grammar.listOrRange (fuel + 1) place) := by
  intro n opens fresh input b
  have hstart := Reached.refl outlook [] input
  rw [Grammar.listOrRange]
  simp only [Reads, atSymbol, Action.meets_bind, Action.meets_gets]
  split
  · next hclose =>
    simp only [Action.meets_bind]
    refine (take_reads (Lexeme.isSymbol_iff.1 hclose) rfl b).pass hstart fun _ i₁ h₁ b₁ l₁ => ?_
    exact ⟨h₁.imp (.refl _) fun _ => ⟨outlook.passesExpr trivial, trivial⟩, b₁, l₁⟩
  · simp only [Action.meets_bind, Action.meets_gets]
    refine (ih.expression _ b).step hstart (fun _ => id) (by omega) fun first i₁ h₁ b₁ l₁ => ?_
    split
    · next hdots =>
      simp only [Action.meets_bind]
      refine (take_reads (Lexeme.isSymbol_iff.1 hdots) rfl b₁).pass h₁ fun _ i₂ h₂ b₂ l₂ => ?_
      refine (ih.expression _ b₂).step h₂ (fun _ => id) (by omega) fun last i₃ h₃ b₃ l₃ => ?_
      refine (expectSymbol_reads rfl b₃).pass h₃ fun _ i₄ h₄ b₄ l₄ => ?_
      refine ⟨h₄.imp ?_ ?_, b₄, by omega⟩
      · simp [Outlook.expr, Expr.declared, Expr.declaredAll, Callee.declared]
      · rintro ⟨⟨_, hfirst⟩, hlast⟩
        exact ⟨outlook.passesExpr trivial, trivial, hfirst, hlast, trivial⟩
    · simp only [Action.meets_bind]
      refine (ih.items b₁).step h₁ (fun _ => id) (by omega) fun rest i₂ h₂ b₂ l₂ => ?_
      refine (expectSymbol_reads rfl b₂).pass h₂ fun _ i₃ h₃ b₃ l₃ => ?_
      refine ⟨h₃.imp (.refl _) ?_, b₃, by omega⟩
      rintro ⟨⟨_, hfirst⟩, hrest⟩
      exact ⟨outlook.passesExpr trivial, hfirst, hrest⟩

theorem branches_succ (ih : Rules outlook fuel) :
    Rest outlook [] outlook.branches (fuel + 1) 1 (Grammar.branches (fuel + 1)) := by
  intro n opens input b
  have hstart := Reached.refl outlook [] input
  rw [Grammar.branches]
  simp only [Reads, atKeyword, Action.meets_bind, Action.meets_gets]
  split
  · next helif =>
    simp only [Action.meets_bind]
    refine (take_reads (Lexeme.isKeyword_iff.1 helif) rfl b).pass hstart fun _ i₁ h₁ b₁ l₁ => ?_
    refine (ih.expression _ b₁).step h₁ (fun _ => id) (by omega) fun condition i₂ h₂ b₂ l₂ => ?_
    refine (expectKeyword_reads _ b₂).pass h₂ fun _ i₃ h₃ b₃ l₃ => ?_
    refine (ih.expression _ b₃).step h₃ (fun _ => id) (by omega) fun result i₄ h₄ b₄ l₄ => ?_
    refine (ih.branches b₄).step h₄ (fun _ => id) (by omega) fun rest i₅ h₅ b₅ l₅ => ?_
    refine ⟨h₅.imp (.refl _) ?_, b₅, by omega⟩
    rintro ⟨⟨⟨_, hcondition⟩, hresult⟩, hrest⟩
    exact ⟨hcondition, hresult, hrest⟩
  · exact ⟨hstart, b, Nat.le_refl _⟩

theorem function_succ (ih : Rules outlook fuel) (place : Position) (name : Option String) :
    Whole outlook [place] (outlook.function (· = name)) (fuel + 1) 2
      (Grammar.function (fuel + 1) place name) 1 := by
  intro n input b
  rw [Grammar.function]
  simp only [Reads, atSymbol, Action.meets_bind, Action.meets_gets]
  refine (parameters_reads fuel b).step (.refl outlook [place] input) (fun _ => id) (by omega)
    fun parameters i₁ h₁ b₁ l₁ => ?_
  split
  · next hopen =>
    simp only [Action.meets_bind, Action.meets_gets]
    refine (ih.block (Lexeme.isSymbol_iff.1 hopen) b₁).step h₁ (fun _ => False.elim) (by omega)
      fun body i₂ h₂ b₂ l₂ => ?_
    refine ⟨h₂.imp (.refl _) ?_, b₂, by omega⟩
    rintro ⟨_, hbody⟩
    exact ⟨rfl, ⟨body, rfl⟩, outlook.passesStmt trivial, hbody⟩
  · exact ⟨b₁, h₁.leads, rfl⟩

end Rules

end Betty.Grammar
