import Betty.Proofs.Parser.Kinship

/-!
# What the grammar does with tokens that are akin

Over tokens that are akin, the rules of the grammar take the same way, with any more fuel in
the second run, and what they make of the tokens is akin.

## Main definitions

* `Keeping`: this holds of all rules that use each other, with the given amounts of fuel.

## Main results

* `keeping`: it holds with any amounts of fuel, the second no less than the first.
-/

namespace Betty.Grammar

open Reading

variable {kin : Kinship}

/-! ### Functions take their keyword -/

/-- A rule that gets on by moves only goes onward. -/
theorem onward_of_reads {α : Type} {step : Reading α} {least : Input → Nat}
    {given : List Position} {product : Product α} {post lost cut : Input → Prop}
    (h : ∀ input, Reads .any input (least input) given product post lost (cut input)
      (step input)) : step.Onward := by
  intro input
  refine Outcome.Meets.imp (h input) ?_ ?_ fun _ => trivial
  · rintro _ after ⟨hreached, _⟩
    exact ⟨hreached.leads.suffix, hreached.leads.errors⟩
  · rintro _ after ⟨_, hleads, _⟩
    exact ⟨hleads.suffix, hleads.errors⟩

/-- A function takes its keyword even if it fails. -/
theorem primary_engages (fuel : Nat) {input : Input}
    (hfunc : input.current.lexeme = .keyword .funcWord) : (primary fuel).Engages input := by
  cases fuel with
  | zero => trivial
  | succ fuel =>
    have hahead : input.ahead ≠ [] := Input.ahead_ne_nil (by simp [hfunc])
    have hadvance := Input.advance_length hahead
    rw [primary]
    refine (meets_position _).2 ((meets_lexeme _).2 fun found hfound => ?_)
    rw [hfunc] at hfound
    subst hfound
    simp only [advance, Action.meets_bind, Action.meets_update]
    refine Outcome.Meets.imp
      ((rules .any fuel).function _ _ (Outlook.any_braces (.loose 0) input.advance)) ?_ ?_
      fun _ => trivial
    · rintro _ after ⟨_, _, hshorter⟩
      rw [Action.meets_pure]
      omega
    · rintro _ after ⟨_, hleads, _⟩
      have hshorter := hleads.length_le
      omega

theorem exprStatement_engages (fuel : Nat) {input : Input}
    (hfunc : input.current.lexeme = .keyword .funcWord) : (exprStatement fuel).Engages input := by
  have hunary : ∀ fuel, (unary fuel).Engages input := by
    intro fuel
    cases fuel with
    | zero => trivial
    | succ fuel =>
      rw [unary]
      refine (meets_position _).2 ((meets_lexeme _).2 fun found hfound => ?_)
      rw [hfunc] at hfound
      subst hfound
      exact (primary_engages fuel hfunc).bind fun _ => onward_of_reads fun _ =>
        (rules .any fuel).suffixed _ (Outlook.any_braces ⟨0, false, true⟩ _)
  have hexpression : ∀ fuel, (expression fuel assignLevel).Engages input := by
    intro fuel
    cases fuel with
    | zero => trivial
    | succ fuel =>
      rw [expression]
      exact (hunary fuel).bind fun _ => onward_of_reads fun _ =>
        (rules .any fuel).joined _ _ (Outlook.any_braces ⟨0, false, true⟩ _)
  cases fuel with
  | zero => trivial
  | succ fuel =>
    have hsemicolon : (expectSymbol .semicolon).Onward :=
      onward_of_reads fun _ => expectSemicolon_reads (Outlook.any_braces (.loose 0) _)
    rw [exprStatement]
    exact (hexpression fuel).bind fun _ => .bind hsemicolon fun _ => .pure _

theorem definition_engages (fuel : Nat) {input : Input}
    (hfunc : input.current.lexeme = .keyword .funcWord) : (definition fuel).Engages input := by
  have hahead : input.ahead ≠ [] := Input.ahead_ne_nil (by simp [hfunc])
  have hadvance := Input.advance_length hahead
  cases fuel with
  | zero => trivial
  | succ fuel =>
    rw [definition]
    refine (meets_position _).2 ?_
    simp only [advance, Action.meets_bind, Action.meets_update]
    refine Outcome.Meets.imp
      (expectName_reads .function (Outlook.any_braces (.loose 0) input.advance)) ?_ ?_ False.elim
    · rintro name middle ⟨_, hbraces, hname⟩
      refine Outcome.Meets.imp ((rules .any fuel).function _ _ hbraces.loosen) ?_ ?_
        fun _ => trivial
      · rintro _ after ⟨_, _, hshorter⟩
        omega
      · rintro _ after ⟨_, hleads, _⟩
        have hshorter := hleads.length_le
        omega
    · rintro _ after ⟨_, hleads, _⟩
      have hshorter := hleads.length_le
      omega

/-! ### Rules -/

/-- Two names are the same, and so are their positions. -/
def SameName (same : Position → Position → Prop) (named named' : String × Position) : Prop :=
  named.1 = named'.1 ∧ same named.2 named'.2

theorem names_keeps (role : NameRole) {fuel fuel' : Nat} (h : fuel ≤ fuel') :
    kin.Keeps (List.Forall₂ (SameName kin.same)) (names role fuel) (names role fuel') := by
  induction fuel generalizing fuel' with
  | zero => exact .exhausted
  | succ fuel ih =>
    obtain ⟨fuel', rfl⟩ := Nat.exists_eq_add_of_le' (Nat.le_trans (Nat.le_add_left 1 fuel) h)
    have hrest := ih (Nat.le_of_succ_le_succ h)
    rw [names, names]
    refine .bind .position fun _ _ hplace => .andThen (.expectName role) fun name => ?_
    refine .andThen (.atSymbol _) fun _ => .ite (.andThen .advance fun _ => ?_) (.pure ?_)
    · refine .bind hrest fun _ _ hfound => .pure ⟨fun e => ?_, fun a => ?_⟩
      · rw [hplace.eq e, hfound.eq e]
      · exact .cons ⟨rfl, hplace.alike a⟩ (hfound.alike a)
    · exact hplace.map (fun place => [(name, place)]) fun a => .cons ⟨rfl, a⟩ .nil

theorem parameters_keeps {fuel fuel' : Nat} (h : fuel ≤ fuel') :
    kin.Keeps (· = ·) (parameters fuel) (parameters fuel') := by
  have hnames : ∀ {found found' : List (String × Position)},
      List.Forall₂ (SameName kin.same) found found' →
      found.map Prod.fst = found'.map Prod.fst := by
    intro found found' hfound
    induction hfound with
    | nil => rfl
    | cons hnamed _ ih => rw [List.map_cons, List.map_cons, hnamed.1, ih]
  have hclose : ∀ found found' : List (String × Position),
      kin.Pair (List.Forall₂ (SameName kin.same)) found found' → kin.Keeps (· = ·)
        (do
          if ← atSymbol .rightParen then
            advance
            return found.map Prod.fst
          else reject .unclosedParameters)
        (do
          if ← atSymbol .rightParen then
            advance
            return found'.map Prod.fst
          else reject .unclosedParameters) := by
    intro found found' hfound
    refine .andThen (.atSymbol _) fun _ => .ite (.andThen .advance fun _ => .pure ?_) (.reject _)
    exact hfound.map (List.map Prod.fst) hnames
  unfold parameters
  refine .andThen (.atSymbol _) fun _ => .ite (.andThen .advance fun _ => ?_) (.reject _)
  refine .andThen (.atSymbol _) fun _ => .ite ?_ ?_
  · exact hclose [] [] ⟨fun _ => rfl, fun _ => .nil⟩
  · exact .bind (names_keeps .parameter h) hclose

theorem calleeOf_alike {same : Position → Position → Prop} {expr expr' : Expr} :
    expr.Alike same expr' → (calleeOf expr).Alike same (calleeOf expr') := by
  fun_cases Expr.Alike same expr expr' with
  | case5 => exact fun h => h.2
  | case17 => exact False.elim
  | _ => exact id

/-- What is done after the error of a statement has been recorded. -/
theorem resume_onward (error : SyntaxError) (before : Nat) :
    Reading.Onward (do
      if (← Action.gets Input.taken) = before then advance
      Action.update Input.synchronize
      return Stmt.error error.position error.fault) := by
  have hrest : Reading.Onward (do
      Action.update Input.synchronize
      return Stmt.error error.position error.fault) :=
    .bind (fun _ => .synchronize _) fun _ => .pure _
  exact .bind (.gets _) fun _ => .ite (.bind (fun _ => .advance _) fun _ => hrest) hrest

/-- With the given amounts of fuel, the rules that use each other keep what is akin. -/
structure Keeping (kin : Kinship) (fuel fuel' : Nat) : Prop where
  more : fuel ≤ fuel'
  expression : ∀ least,
    kin.Keeps (Expr.Alike kin.same) (expression fuel least) (expression fuel' least)
  joined : ∀ least {left left'}, kin.Pair (Expr.Alike kin.same) left left' →
    kin.Keeps (Expr.Alike kin.same) (joined fuel least left) (joined fuel' least left')
  operands : ∀ joint {left left'}, kin.Pair (Expr.Alike kin.same) left left' →
    kin.Keeps (Expr.Alike kin.same) (operands fuel left joint) (operands fuel' left' joint)
  unary : kin.Keeps (Expr.Alike kin.same) (unary fuel) (unary fuel')
  suffixed : ∀ {expr expr'}, kin.Pair (Expr.Alike kin.same) expr expr' →
    kin.Keeps (Expr.Alike kin.same) (suffixed fuel expr) (suffixed fuel' expr')
  arguments : kin.Keeps (Expr.AlikeAll kin.same) (arguments fuel) (arguments fuel')
  items : kin.Keeps (Expr.AlikeAll kin.same) (items fuel) (items fuel')
  arms : ∀ closed, kin.Keeps (Arm.AlikeAll kin.same) (arms fuel closed) (arms fuel' closed)
  armPattern : kin.Keeps (Expr.AlikeOption kin.same) (armPattern fuel) (armPattern fuel')
  primary : kin.Keeps (Expr.Alike kin.same) (primary fuel) (primary fuel')
  listOrRange : ∀ {place place'}, kin.Pair kin.same place place' →
    kin.Keeps (Expr.Alike kin.same) (listOrRange fuel place) (listOrRange fuel' place')
  branches : kin.Keeps (Branch.AlikeAll kin.same) (branches fuel) (branches fuel')
  function : ∀ name {place place'}, kin.Pair kin.same place place' →
    kin.Keeps (Declaration.Alike kin.same) (function fuel place name) (function fuel' place' name)
  block : kin.Keeps (Stmt.AlikeAll kin.same) (block fuel) (block fuel')
  statements : ∀ ends,
    kin.Keeps (Stmt.AlikeAll kin.same) (statements fuel ends) (statements fuel' ends)
  recovered : kin.Keeps (Stmt.Alike kin.same) (recovered fuel) (recovered fuel')
  statement : kin.Keeps (Stmt.Alike kin.same) (statement fuel) (statement fuel')
  exprStatement : kin.Keeps (Stmt.Alike kin.same) (exprStatement fuel) (exprStatement fuel')
  definition : kin.Keeps (Declaration.Alike kin.same) (definition fuel) (definition fuel')
  condition : kin.Keeps (Expr.Alike kin.same) (condition fuel) (condition fuel')
  optional : ∀ sign,
    kin.Keeps (Expr.AlikeOption kin.same) (optional fuel sign) (optional fuel' sign)
  clauses : kin.Keeps (Clause.AlikeAll kin.same) (clauses fuel) (clauses fuel')
  cases : ∀ closed, kin.Keeps (Case.AlikeAll kin.same) (cases fuel closed) (cases fuel' closed)
  caseBody : ∀ {pattern pattern'}, kin.Pair (Expr.AlikeOption kin.same) pattern pattern' →
    kin.Keeps (fun found found' => Case.AlikeAll kin.same [found] [found'])
      (caseBody fuel pattern) (caseBody fuel' pattern')

namespace Keeping

variable {fuel fuel' : Nat}

/-! #### Expressions -/

theorem expression_succ (ih : Keeping kin fuel fuel') (least : Nat) :
    kin.Keeps (Expr.Alike kin.same) (Grammar.expression (fuel + 1) least)
      (Grammar.expression (fuel' + 1) least) := by
  rw [Grammar.expression, Grammar.expression]
  exact .bind ih.unary fun _ _ hfirst => ih.joined least hfirst

theorem joined_succ (ih : Keeping kin fuel fuel') (least : Nat) {left left' : Expr}
    (h : kin.Pair (Expr.Alike kin.same) left left') :
    kin.Keeps (Expr.Alike kin.same) (Grammar.joined (fuel + 1) least left)
      (Grammar.joined (fuel' + 1) least left') := by
  rw [Grammar.joined, Grammar.joined]
  refine .andThen .lexeme fun found => ?_
  cases found with
  | symbol sign =>
    dsimp only
    cases joint? sign with
    | none => exact .pure h
    | some joint =>
      refine .ite (.pure h) (.andThen .advance fun _ => ?_)
      exact .bind (ih.operands joint h) fun _ _ hwhole => ih.joined least hwhole
  | _ => exact .pure h

theorem operands_succ (ih : Keeping kin fuel fuel') (joint : Joint) {left left' : Expr}
    (h : kin.Pair (Expr.Alike kin.same) left left') :
    kin.Keeps (Expr.Alike kin.same) (Grammar.operands (fuel + 1) left joint)
      (Grammar.operands (fuel' + 1) left' joint) := by
  cases joint with
  | assign op =>
    rw [Grammar.operands, Grammar.operands]
    refine .bind (ih.expression _) fun _ _ hvalue => .pure ⟨fun e => ?_, fun a => ?_⟩
    · rw [h.eq e, hvalue.eq e]
    · exact ⟨(h.alike a).position, h.alike a, rfl, hvalue.alike a⟩
  | ternary =>
    rw [Grammar.operands, Grammar.operands]
    refine .bind (ih.expression _) fun _ _ hyes => .andThen (.expectSymbol _) fun _ => ?_
    refine .bind (ih.expression _) fun _ _ hno => .pure ⟨fun e => ?_, fun a => ?_⟩
    · rw [h.eq e, hyes.eq e, hno.eq e]
    · exact ⟨(h.alike a).position, h.alike a, hyes.alike a, hno.alike a⟩
  | binary op level =>
    rw [Grammar.operands, Grammar.operands]
    refine .bind (ih.expression _) fun _ _ hright => .pure ⟨fun e => ?_, fun a => ?_⟩
    · rw [h.eq e, hright.eq e]
    · exact ⟨(h.alike a).position, h.alike a, rfl, hright.alike a⟩

theorem unary_succ (ih : Keeping kin fuel fuel') :
    kin.Keeps (Expr.Alike kin.same) (Grammar.unary (fuel + 1)) (Grammar.unary (fuel' + 1)) := by
  have hplain : kin.Keeps (Expr.Alike kin.same)
      (Grammar.primary fuel >>= Grammar.suffixed fuel)
      (Grammar.primary fuel' >>= Grammar.suffixed fuel') :=
    .bind ih.primary fun _ _ hoperand => ih.suffixed hoperand
  rw [Grammar.unary, Grammar.unary]
  refine .bind .position fun _ _ hplace => .andThen .lexeme fun found => ?_
  cases found with
  | symbol sign =>
    dsimp only
    cases leadingOp? sign with
    | none => exact hplain
    | some op =>
      refine .andThen .advance fun _ => .bind ih.unary fun _ _ hoperand => ?_
      refine .pure ⟨fun e => ?_, fun a => ⟨hplace.alike a, rfl, rfl, hoperand.alike a⟩⟩
      rw [hplace.eq e, hoperand.eq e]
  | _ => exact hplain

theorem suffixed_succ (ih : Keeping kin fuel fuel') {expr expr' : Expr}
    (h : kin.Pair (Expr.Alike kin.same) expr expr') :
    kin.Keeps (Expr.Alike kin.same) (Grammar.suffixed (fuel + 1) expr)
      (Grammar.suffixed (fuel' + 1) expr') := by
  have hstep : ∀ op, kin.Pair (Expr.Alike kin.same) (.unary expr.position op .trailing expr)
      (.unary expr'.position op .trailing expr') := fun op =>
    h.map (fun expr => Expr.unary expr.position op .trailing expr)
      fun a => ⟨a.position, rfl, rfl, a⟩
  rw [Grammar.suffixed, Grammar.suffixed]
  refine .andThen .lexeme fun found => ?_
  split
  · refine .andThen .advance fun _ => .bind ih.arguments fun _ _ hfound => ?_
    refine ih.suffixed ⟨fun e => ?_, fun a => ?_⟩
    · rw [h.eq e, hfound.eq e]
    · exact ⟨(h.alike a).position, calleeOf_alike (h.alike a), hfound.alike a⟩
  · refine .andThen .advance fun _ => .bind (ih.expression _) fun _ _ hindex => ?_
    refine .andThen (.expectSymbol _) fun _ => ih.suffixed ⟨fun e => ?_, fun a => ?_⟩
    · rw [h.eq e, hindex.eq e]
    · exact ⟨(h.alike a).position, h.alike a, hindex.alike a⟩
  · exact .andThen .advance fun _ => ih.suffixed (hstep _)
  · exact .andThen .advance fun _ => ih.suffixed (hstep _)
  · refine .andThen .advance fun _ => .andThen (.expectSymbol _) fun _ => ?_
    refine .bind (ih.arms _) fun _ _ hfound => .andThen (.expectSymbol _) fun _ => ?_
    refine ih.suffixed ⟨fun e => ?_, fun a => ?_⟩
    · rw [h.eq e, hfound.eq e]
    · exact ⟨(h.alike a).position, h.alike a, hfound.alike a⟩
  · exact .pure h

theorem arguments_succ (ih : Keeping kin fuel fuel') :
    kin.Keeps (Expr.AlikeAll kin.same) (Grammar.arguments (fuel + 1))
      (Grammar.arguments (fuel' + 1)) := by
  rw [Grammar.arguments, Grammar.arguments]
  refine .andThen (.atSymbol _) fun _ => .ite (.andThen .advance fun _ => ?_) ?_
  · exact .pure ⟨fun _ => rfl, fun _ => trivial⟩
  refine .bind (ih.expression _) fun _ _ hfirst => .bind ih.items fun _ _ hrest => ?_
  refine .andThen (.expectSymbol _) fun _ => .pure ⟨fun e => ?_, fun a => ?_⟩
  · rw [hfirst.eq e, hrest.eq e]
  · exact ⟨hfirst.alike a, hrest.alike a⟩

theorem items_succ (ih : Keeping kin fuel fuel') :
    kin.Keeps (Expr.AlikeAll kin.same) (Grammar.items (fuel + 1))
      (Grammar.items (fuel' + 1)) := by
  rw [Grammar.items, Grammar.items]
  refine .andThen (.atSymbol _) fun _ => .ite (.andThen .advance fun _ => ?_)
    (.pure ⟨fun _ => rfl, fun _ => trivial⟩)
  refine .bind (ih.expression _) fun _ _ hitem => .bind ih.items fun _ _ hrest => ?_
  refine .pure ⟨fun e => ?_, fun a => ⟨hitem.alike a, hrest.alike a⟩⟩
  rw [hitem.eq e, hrest.eq e]

theorem arms_succ (ih : Keeping kin fuel fuel') (closed : Bool) :
    kin.Keeps (Arm.AlikeAll kin.same) (Grammar.arms (fuel + 1) closed)
      (Grammar.arms (fuel' + 1) closed) := by
  have hnone : kin.Pair (Arm.AlikeAll kin.same) [] [] := ⟨fun _ => rfl, fun _ => trivial⟩
  rw [Grammar.arms, Grammar.arms]
  refine .andThen .lexeme fun _ => .ite (.pure hnone) (.reportIf closed _ fun _ => ?_)
  refine .bind ih.armPattern fun pattern pattern' hpattern => ?_
  refine .andThen (.expectSymbol _) fun _ => ?_
  refine .bind (ih.expression _) fun result result' hresult => ?_
  have hkept : ∀ rest rest' : List Arm, kin.Pair (Arm.AlikeAll kin.same) rest rest' →
      kin.Pair (Arm.AlikeAll kin.same) (if closed then rest else ⟨pattern, result⟩ :: rest)
        (if closed then rest' else ⟨pattern', result'⟩ :: rest') := by
    intro rest rest' hrest
    cases closed with
    | false =>
      refine ⟨fun e => ?_, fun a => ⟨hpattern.alike a, hresult.alike a, hrest.alike a⟩⟩
      rw [hpattern.eq e, hresult.eq e, hrest.eq e]
    | true => exact hrest
  have hclosed : pattern.isNone = pattern'.isNone :=
    Kinship.Pair.same (hpattern.map Option.isNone Expr.AlikeOption.isNone)
  refine .andThen (.atSymbol _) fun _ => .ite ?_ (.pure (hkept [] [] hnone))
  refine .andThen .advance fun _ => ?_
  rw [hclosed]
  exact .bind (ih.arms _) fun rest rest' hrest => .pure (hkept rest rest' hrest)

theorem armPattern_succ (ih : Keeping kin fuel fuel') :
    kin.Keeps (Expr.AlikeOption kin.same) (Grammar.armPattern (fuel + 1))
      (Grammar.armPattern (fuel' + 1)) := by
  rw [Grammar.armPattern, Grammar.armPattern]
  refine .andThen (.atKeyword _) fun _ => .ite (.andThen .advance fun _ => ?_) ?_
  · exact .pure ⟨fun _ => rfl, fun _ => trivial⟩
  · exact .bind (ih.expression _) fun _ _ hpattern => .pure (hpattern.map some id)

theorem primary_succ (ih : Keeping kin fuel fuel') :
    kin.Keeps (Expr.Alike kin.same) (Grammar.primary (fuel + 1))
      (Grammar.primary (fuel' + 1)) := by
  rw [Grammar.primary, Grammar.primary]
  refine .bind .position fun place place' hplace => .andThen .lexeme fun found => ?_
  split
  -- The six kinds of atoms.
  · exact .andThen .advance fun _ => .pure (hplace.map (Expr.number · _) fun a => ⟨a, rfl⟩)
  · exact .andThen .advance fun _ => .pure (hplace.map (Expr.text · _) fun a => ⟨a, rfl⟩)
  · exact .andThen .advance fun _ => .pure (hplace.map (Expr.character · _) fun a => ⟨a, rfl⟩)
  · exact .andThen .advance fun _ => .pure (hplace.map (Expr.name · _) fun a => ⟨a, rfl⟩)
  · exact .andThen .advance fun _ => .pure (hplace.map (Expr.boolean · _) fun a => ⟨a, rfl⟩)
  · exact .andThen .advance fun _ => .pure (hplace.map (Expr.boolean · _) fun a => ⟨a, rfl⟩)
  · refine .andThen .advance fun _ => .bind (ih.function none hplace) fun _ _ hfunction => ?_
    refine .pure ⟨fun e => ?_, fun a => ⟨hplace.alike a, hfunction.alike a⟩⟩
    rw [hplace.eq e, hfunction.eq e]
  · refine .andThen .advance fun _ => .bind (ih.expression _) fun _ _ hcondition => ?_
    refine .andThen (.expectKeyword _) fun _ => .bind (ih.expression _) fun _ _ hyes => ?_
    refine .bind ih.branches fun _ _ hbranches => .andThen (.expectKeyword _) fun _ => ?_
    refine .bind (ih.expression _) fun _ _ hotherwise => .pure ⟨fun e => ?_, fun a => ?_⟩
    · rw [hplace.eq e, hcondition.eq e, hyes.eq e, hbranches.eq e, hotherwise.eq e]
    · exact ⟨hplace.alike a, hcondition.alike a, hyes.alike a, hbranches.alike a,
        hotherwise.alike a⟩
  · refine .andThen .advance fun _ => .bind (ih.expression _) fun _ _ hinner => ?_
    exact .andThen (.expectSymbol _) fun _ => .pure hinner
  · exact .andThen .advance fun _ => ih.listOrRange hplace
  · exact .andThen (.absorb _) fun _ => .pure (hplace.map (Expr.error · _) fun a => ⟨a, rfl⟩)
  · exact .reject _

theorem listOrRange_succ (ih : Keeping kin fuel fuel') {place place' : Position}
    (hplace : kin.Pair kin.same place place') :
    kin.Keeps (Expr.Alike kin.same) (Grammar.listOrRange (fuel + 1) place)
      (Grammar.listOrRange (fuel' + 1) place') := by
  rw [Grammar.listOrRange, Grammar.listOrRange]
  refine .andThen (.atSymbol _) fun _ => .ite (.andThen .advance fun _ => ?_) ?_
  · exact .pure (hplace.map (Expr.list · []) fun a => ⟨a, trivial⟩)
  refine .bind (ih.expression _) fun _ _ hfirst => .andThen (.atSymbol _) fun _ => .ite ?_ ?_
  · refine .andThen .advance fun _ => .bind (ih.expression _) fun _ _ hlast => ?_
    refine .andThen (.expectSymbol _) fun _ => .pure ⟨fun e => ?_, fun a => ?_⟩
    · rw [hplace.eq e, hfirst.eq e, hlast.eq e]
    · exact ⟨hplace.alike a, rfl, hfirst.alike a, hlast.alike a, trivial⟩
  · refine .bind ih.items fun _ _ hrest => .andThen (.expectSymbol _) fun _ => ?_
    refine .pure ⟨fun e => ?_, fun a => ⟨hplace.alike a, hfirst.alike a, hrest.alike a⟩⟩
    rw [hplace.eq e, hfirst.eq e, hrest.eq e]

theorem branches_succ (ih : Keeping kin fuel fuel') :
    kin.Keeps (Branch.AlikeAll kin.same) (Grammar.branches (fuel + 1))
      (Grammar.branches (fuel' + 1)) := by
  rw [Grammar.branches, Grammar.branches]
  refine .andThen (.atKeyword _) fun _ => .ite (.andThen .advance fun _ => ?_)
    (.pure ⟨fun _ => rfl, fun _ => trivial⟩)
  refine .bind (ih.expression _) fun _ _ hcondition => .andThen (.expectKeyword _) fun _ => ?_
  refine .bind (ih.expression _) fun _ _ hresult => .bind ih.branches fun _ _ hrest => ?_
  refine .pure ⟨fun e => ?_, fun a => ⟨hcondition.alike a, hresult.alike a, hrest.alike a⟩⟩
  rw [hcondition.eq e, hresult.eq e, hrest.eq e]

theorem function_succ (ih : Keeping kin fuel fuel') (name : Option String)
    {place place' : Position} (hplace : kin.Pair kin.same place place') :
    kin.Keeps (Declaration.Alike kin.same) (Grammar.function (fuel + 1) place name)
      (Grammar.function (fuel' + 1) place' name) := by
  -- Texts that only have the same lexemes may have any two numbers.
  rw [Grammar.function, Grammar.function]
  refine .andThen (parameters_keeps ih.more) fun _ => .andThen (.atSymbol _) fun _ =>
    .ite ?_ (.reject _)
  refine .bind ih.block fun _ _ hbody => .bind .source fun _ _ hnumber => ?_
  refine .pure ⟨fun e => ?_, fun a => ⟨hplace.alike a, rfl, rfl, hbody.alike a⟩⟩
  rw [hplace.eq e, hbody.eq e, hnumber.eq e]

/-! #### Statements -/

theorem block_succ (ih : Keeping kin fuel fuel') :
    kin.Keeps (Stmt.AlikeAll kin.same) (Grammar.block (fuel + 1))
      (Grammar.block (fuel' + 1)) := by
  rw [Grammar.block, Grammar.block]
  refine .andThen .advance fun _ => .bind (ih.statements _) fun _ _ hbody => ?_
  exact .andThen (.expectSymbol _) fun _ => .pure hbody

theorem statements_succ (ih : Keeping kin fuel fuel') (ends : Lexeme → Bool) :
    kin.Keeps (Stmt.AlikeAll kin.same) (Grammar.statements (fuel + 1) ends)
      (Grammar.statements (fuel' + 1) ends) := by
  rw [Grammar.statements, Grammar.statements]
  refine .andThen .lexeme fun _ => .ite (.pure ⟨fun _ => rfl, fun _ => trivial⟩) ?_
  refine .bind ih.recovered fun _ _ hfirst => .bind (ih.statements ends) fun _ _ hrest => ?_
  refine .pure ⟨fun e => ?_, fun a => ⟨hfirst.alike a, hrest.alike a⟩⟩
  rw [hfirst.eq e, hrest.eq e]

/-- The number of tokens taken is only compared with what it was before the statement. -/
theorem recovered_succ (ih : Keeping kin fuel fuel') :
    kin.Keeps (Stmt.Alike kin.same) (Grammar.recovered (fuel + 1))
      (Grammar.recovered (fuel' + 1)) := by
  have hresume : ∀ error error', kin.Pair (SyntaxError.Alike kin.same) error error' →
      kin.Keeps (Stmt.Alike kin.same)
        (do
          Action.update Input.synchronize
          return Stmt.error error.position error.fault)
        (do
          Action.update Input.synchronize
          return Stmt.error error'.position error'.fault) := fun error error' herror =>
    .andThen .synchronize fun _ => .pure
      (herror.map (fun error => Stmt.error error.position error.fault)
        fun a => ⟨a.position, a.fault⟩)
  have hhandled : kin.fixed → ∀ before error, Reading.Onward (do
      Action.update fun input => input.report error
      if (← Action.gets Input.taken) = before then advance
      Action.update Input.synchronize
      return Stmt.error error.position error.fault) :=
    fun _ before error => .bind (fun _ => .report _ _) fun _ => resume_onward error before
  rw [Grammar.recovered, Grammar.recovered]
  refine .bind .position fun place place' hplace => .andThen .lexeme fun found => ?_
  split
  · exact .andThen (.absorb _) fun _ => hresume ⟨.lexical _, place⟩ ⟨.lexical _, place'⟩
      (hplace.map (SyntaxError.mk (.lexical _)) fun a => ⟨rfl, a⟩)
  · refine ⟨fun hfixed => .bind (.gets _) fun before =>
      .recover (ih.statement.onward hfixed) (hhandled hfixed before), fun {own own'} hown => ?_⟩
    change kin.Agrees _ own own' (Action.recover _ _) (Action.recover _ _)
    refine .recover (ih.statement.agrees hown) (fun hfixed => hhandled hfixed _) ?_
    intro error error' left left' herror hleft
    have hreport : kin.Agrees (· = ·) left left'
        (Action.update fun input => input.report error)
        (Action.update fun input => input.report error') := fun _ =>
      ⟨(), _, _, Input.within_report error, .rfl, hleft.report herror,
        congrArg (Outcome.done ()) (Input.within_report error')⟩
    refine .bind hreport (fun _ _ => resume_onward error _) ?_
    intro _ _ reported reported' _ hreported
    have htaken : reported.taken = own.taken ↔ reported'.taken = own'.taken := by
      rw [hreported.taken, hown.taken]
    change kin.Agrees _ reported reported' (ite (_ + reported.taken = _ + own.taken) _ _)
      (ite (_ + reported'.taken = _ + own'.taken) _ _)
    simp only [Nat.add_left_cancel_iff]
    by_cases heq : reported.taken = own.taken
    · rw [if_pos heq, if_pos (htaken.1 heq)]
      exact (Kinship.Keeps.andThen .advance fun _ => hresume error error' herror).agrees hreported
    · rw [if_neg heq, if_neg fun heq' => heq (htaken.2 heq')]
      exact (hresume error error' herror).agrees hreported

theorem statement_succ (ih : Keeping kin fuel fuel') :
    kin.Keeps (Stmt.Alike kin.same) (Grammar.statement (fuel + 1))
      (Grammar.statement (fuel' + 1)) := by
  rw [Grammar.statement, Grammar.statement]
  refine .bind .position fun place place' hplace => .look fun found => ?_
  split
  · exact .at (.bind ih.block fun _ _ hbody => .pure (hbody.map Stmt.block id))
  · refine .at (.andThen .advance fun _ => .bind ih.condition fun _ _ htest => ?_)
    refine .bind ih.recovered fun _ _ hyes => .bind ih.clauses fun _ _ hfound => ?_
    refine .andThen (.atKeyword _) fun _ => .ite (.andThen .advance fun _ => ?_) ?_
    · refine .bind ih.recovered fun _ _ hotherwise => .pure ⟨fun e => ?_, fun a => ?_⟩
      · rw [htest.eq e, hyes.eq e, hfound.eq e, hotherwise.eq e]
      · exact ⟨htest.alike a, hyes.alike a, hfound.alike a, hotherwise.alike a⟩
    · refine .pure ⟨fun e => ?_, fun a => ⟨htest.alike a, hyes.alike a, hfound.alike a, trivial⟩⟩
      rw [htest.eq e, hyes.eq e, hfound.eq e]
  · refine .at (.andThen .advance fun _ => .andThen (.expectSymbol _) fun _ => ?_)
    refine .bind (ih.optional _) fun _ _ hstart => .andThen (.expectSymbol _) fun _ => ?_
    refine .bind (ih.optional _) fun _ _ htest => .andThen (.expectSymbol _) fun _ => ?_
    refine .bind (ih.optional _) fun _ _ hstep => .andThen (.expectSymbol _) fun _ => ?_
    refine .bind ih.recovered fun _ _ hbody => .pure ⟨fun e => ?_, fun a => ?_⟩
    · rw [hstart.eq e, htest.eq e, hstep.eq e, hbody.eq e]
    · exact ⟨hstart.alike a, htest.alike a, hstep.alike a, hbody.alike a⟩
  · refine .at (.andThen .advance fun _ => .andThen (.expectSymbol _) fun _ => ?_)
    refine .andThen (.expectName _) fun _ => .andThen (.expectKeyword _) fun _ => ?_
    refine .bind (ih.expression _) fun _ _ hiterable => .andThen (.expectSymbol _) fun _ => ?_
    refine .bind ih.recovered fun _ _ hbody => .pure ⟨fun e => ?_, fun a => ?_⟩
    · rw [hiterable.eq e, hbody.eq e]
    · exact ⟨rfl, hiterable.alike a, hbody.alike a⟩
  · refine .at (.andThen .advance fun _ => .bind ih.condition fun _ _ htest => ?_)
    refine .bind ih.recovered fun _ _ hbody => .pure ⟨fun e => ?_, fun a => ?_⟩
    · rw [htest.eq e, hbody.eq e]
    · exact ⟨htest.alike a, hbody.alike a⟩
  · refine .at (.andThen .advance fun _ => .bind ih.recovered fun _ _ hbody => ?_)
    refine .andThen (.expectKeyword _) fun _ => .bind ih.condition fun _ _ htest => ?_
    refine .andThen (.expectSymbol _) fun _ => .pure ⟨fun e => ?_, fun a => ?_⟩
    · rw [hbody.eq e, htest.eq e]
    · exact ⟨hbody.alike a, htest.alike a⟩
  · refine .at (.andThen .advance fun _ => .bind ih.condition fun _ _ hsubject => ?_)
    refine .andThen (.expectSymbol _) fun _ => .bind (ih.cases _) fun _ _ hfound => ?_
    refine .andThen (.expectSymbol _) fun _ => .pure ⟨fun e => ?_, fun a => ?_⟩
    · rw [hsubject.eq e, hfound.eq e]
    · exact ⟨hsubject.alike a, hfound.alike a⟩
  · exact .at (.andThen .advance fun _ => .andThen (.expectSymbol _) fun _ =>
      .pure (hplace.map Stmt.breakStmt id))
  · exact .at (.andThen .advance fun _ => .andThen (.expectSymbol _) fun _ =>
      .pure (hplace.map Stmt.continueStmt id))
  · refine .at (.andThen .advance fun _ => .andThen (.atSymbol _) fun _ => ?_)
    refine .andThen (.atSymbol _) fun _ => .ite ?_ ?_
    · exact .andThen (.expectSymbol _) fun _ => .pure ⟨fun _ => rfl, fun _ => trivial⟩
    · refine .bind (ih.expression _) fun _ _ hvalue => .andThen (.expectSymbol _) fun _ => ?_
      exact .pure (hvalue.map (fun value => Stmt.returnStmt (some value)) id)
  · exact .at (.andThen .advance fun _ => .pure ⟨fun _ => rfl, fun _ => trivial⟩)
  · -- One more token is looked at, but the keyword before it is taken in any case.
    have hdefinition : kin.Keeps (Stmt.Alike kin.same)
        (Grammar.definition fuel >>= fun declaration => return Stmt.function declaration)
        (Grammar.definition fuel' >>= fun declaration => return Stmt.function declaration) :=
      .bind ih.definition fun _ _ hfunction => .pure (hfunction.map Stmt.function id)
    refine ⟨fun hfixed => .bind (.gets _) fun _ => .ite (ih.exprStatement.onward hfixed)
      (hdefinition.onward hfixed), fun hown hfunc => ?_⟩
    refine .following hown (fun _ => .ite ih.exprStatement hdefinition) fun found => ?_
    split
    · exact exprStatement_engages fuel hfunc
    · exact (definition_engages fuel hfunc).bind fun _ => .pure _
  · exact .at ih.exprStatement

theorem exprStatement_succ (ih : Keeping kin fuel fuel') :
    kin.Keeps (Stmt.Alike kin.same) (Grammar.exprStatement (fuel + 1))
      (Grammar.exprStatement (fuel' + 1)) := by
  rw [Grammar.exprStatement, Grammar.exprStatement]
  refine .bind (ih.expression _) fun _ _ hexpr => .andThen (.expectSymbol _) fun _ => ?_
  exact .pure (hexpr.map Stmt.expr id)

theorem definition_succ (ih : Keeping kin fuel fuel') :
    kin.Keeps (Declaration.Alike kin.same) (Grammar.definition (fuel + 1))
      (Grammar.definition (fuel' + 1)) := by
  rw [Grammar.definition, Grammar.definition]
  refine .bind .position fun place place' hplace => .andThen .advance fun _ => ?_
  exact .andThen (.expectName _) fun name => ih.function (some name) hplace

theorem condition_succ (ih : Keeping kin fuel fuel') :
    kin.Keeps (Expr.Alike kin.same) (Grammar.condition (fuel + 1))
      (Grammar.condition (fuel' + 1)) := by
  rw [Grammar.condition, Grammar.condition]
  refine .andThen (.expectSymbol _) fun _ => .bind (ih.expression _) fun _ _ htest => ?_
  exact .andThen (.expectSymbol _) fun _ => .pure htest

theorem optional_succ (ih : Keeping kin fuel fuel') (sign : Symbol) :
    kin.Keeps (Expr.AlikeOption kin.same) (Grammar.optional (fuel + 1) sign)
      (Grammar.optional (fuel' + 1) sign) := by
  rw [Grammar.optional, Grammar.optional]
  refine .andThen (.atSymbol _) fun _ => .ite (.pure ⟨fun _ => rfl, fun _ => trivial⟩) ?_
  exact .bind (ih.expression _) fun _ _ hexpr => .pure (hexpr.map some id)

theorem clauses_succ (ih : Keeping kin fuel fuel') :
    kin.Keeps (Clause.AlikeAll kin.same) (Grammar.clauses (fuel + 1))
      (Grammar.clauses (fuel' + 1)) := by
  rw [Grammar.clauses, Grammar.clauses]
  refine .andThen (.atKeyword _) fun _ => .ite (.andThen .advance fun _ => ?_)
    (.pure ⟨fun _ => rfl, fun _ => trivial⟩)
  refine .bind ih.condition fun _ _ htest => .bind ih.recovered fun _ _ hbody => ?_
  refine .bind ih.clauses fun _ _ hrest => .pure ⟨fun e => ?_, fun a => ?_⟩
  · rw [htest.eq e, hbody.eq e, hrest.eq e]
  · exact ⟨htest.alike a, hbody.alike a, hrest.alike a⟩

theorem cases_succ (ih : Keeping kin fuel fuel') (closed : Bool) :
    kin.Keeps (Case.AlikeAll kin.same) (Grammar.cases (fuel + 1) closed)
      (Grammar.cases (fuel' + 1) closed) := by
  have hkept : ∀ found found' : Case,
      kin.Pair (fun found found' => Case.AlikeAll kin.same [found] [found']) found found' →
      ∀ rest rest' : List Case, kin.Pair (Case.AlikeAll kin.same) rest rest' →
        kin.Pair (Case.AlikeAll kin.same) (if closed then rest else found :: rest)
          (if closed then rest' else found' :: rest') := by
    rintro ⟨pattern, body⟩ ⟨pattern', body'⟩ hfound rest rest' hrest
    cases closed with
    | false =>
      refine ⟨fun e => ?_, fun a => ?_⟩
      · rw [hfound.eq e, hrest.eq e]
      · obtain ⟨hpattern, hbody, _⟩ := hfound.alike a
        exact ⟨hpattern, hbody, hrest.alike a⟩
    | true => exact hrest
  rw [Grammar.cases, Grammar.cases]
  refine .andThen .lexeme fun found => ?_
  split
  · refine .reportIf closed _ fun _ => .andThen .advance fun _ => ?_
    refine .bind (ih.expression _) fun _ _ hpattern => ?_
    refine .bind (ih.caseBody (hpattern.map some id)) fun _ _ hfound => ?_
    exact .bind (ih.cases _) fun rest rest' hrest => .pure (hkept _ _ hfound rest rest' hrest)
  · refine .reportIf closed _ fun _ => .andThen .advance fun _ => ?_
    refine .bind (ih.caseBody ⟨fun _ => rfl, fun _ => trivial⟩) fun _ _ hfound => ?_
    exact .bind (ih.cases _) fun rest rest' hrest => .pure (hkept _ _ hfound rest rest' hrest)
  · refine .ite (.pure ⟨fun _ => rfl, fun _ => trivial⟩) ?_
    exact .andThen (.report _) fun _ => .andThen .advance fun _ => ih.cases _

theorem caseBody_succ (ih : Keeping kin fuel fuel') {pattern pattern' : Option Expr}
    (h : kin.Pair (Expr.AlikeOption kin.same) pattern pattern') :
    kin.Keeps (fun found found' => Case.AlikeAll kin.same [found] [found'])
      (Grammar.caseBody (fuel + 1) pattern) (Grammar.caseBody (fuel' + 1) pattern') := by
  rw [Grammar.caseBody, Grammar.caseBody]
  refine .andThen (.expectSymbol _) fun _ => .bind (ih.statements _) fun _ _ hbody => ?_
  refine .pure ⟨fun e => ?_, fun a => ⟨h.alike a, hbody.alike a, trivial⟩⟩
  rw [h.eq e, hbody.eq e]

end Keeping

theorem keeping (kin : Kinship) {fuel fuel' : Nat} (h : fuel ≤ fuel') :
    Keeping kin fuel fuel' := by
  induction fuel generalizing fuel' with
  | zero => constructor <;> intros <;> first | exact h | exact .exhausted
  | succ fuel ih =>
    obtain ⟨fuel', rfl⟩ := Nat.exists_eq_add_of_le' (Nat.le_trans (Nat.le_add_left 1 fuel) h)
    have ih := ih (Nat.le_of_succ_le_succ h)
    exact {
      more := h
      expression := ih.expression_succ
      joined := ih.joined_succ
      operands := ih.operands_succ
      unary := ih.unary_succ
      suffixed := ih.suffixed_succ
      arguments := ih.arguments_succ
      items := ih.items_succ
      arms := ih.arms_succ
      armPattern := ih.armPattern_succ
      primary := ih.primary_succ
      listOrRange := ih.listOrRange_succ
      branches := ih.branches_succ
      function := ih.function_succ
      block := ih.block_succ
      statements := ih.statements_succ
      recovered := ih.recovered_succ
      statement := ih.statement_succ
      exprStatement := ih.exprStatement_succ
      definition := ih.definition_succ
      condition := ih.condition_succ
      optional := ih.optional_succ
      clauses := ih.clauses_succ
      cases := ih.cases_succ
      caseBody := ih.caseBody_succ }

end Betty.Grammar
