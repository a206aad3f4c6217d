import Betty.Proofs.Program.Nodes
import Mathlib.Data.List.Forall2

/-!
# Programs that differ in their positions only

Two trees are alike if they have the same nodes in the same places, except for the
positions that the nodes carry. Which positions may stand for each other is a parameter:
each position in one tree and the position at the same node of the other must be the same
in a given sense. The numbers of the source texts do not matter.

## Main definitions

* `Expr.Alike`, `Stmt.Alike`, `Declaration.Alike`, `Program.Alike`.
* `NodeCheck.placed`: the check that the positions of a node are good ones.

## Main results

* `Declaration.Alike.everywhere`: a tree that is like itself has good positions only, if
  the positions that are the same as themselves are good.
-/

namespace Betty

section

variable (same : Position → Position → Prop)

mutual

/-- The expressions are alike. -/
def Expr.Alike : Expr → Expr → Prop
  | .number p value, .number p' value' => same p p' ∧ value = value'
  | .text p value, .text p' value' => same p p' ∧ value = value'
  | .character p value, .character p' value' => same p p' ∧ value = value'
  | .boolean p value, .boolean p' value' => same p p' ∧ value = value'
  | .name p name, .name p' name' => same p p' ∧ name = name'
  | .list p items, .list p' items' => same p p' ∧ Expr.AlikeAll items items'
  | .index p collection index, .index p' collection' index' =>
    same p p' ∧ collection.Alike collection' ∧ index.Alike index'
  | .binary p left op right, .binary p' left' op' right' =>
    same p p' ∧ left.Alike left' ∧ op = op' ∧ right.Alike right'
  | .unary p op fixity operand, .unary p' op' fixity' operand' =>
    same p p' ∧ op = op' ∧ fixity = fixity' ∧ operand.Alike operand'
  | .ternary p condition yes no, .ternary p' condition' yes' no' =>
    same p p' ∧ condition.Alike condition' ∧ yes.Alike yes' ∧ no.Alike no'
  | .assign p target op value, .assign p' target' op' value' =>
    same p p' ∧ target.Alike target' ∧ op = op' ∧ value.Alike value'
  | .call p callee arguments, .call p' callee' arguments' =>
    same p p' ∧ callee.Alike callee' ∧ Expr.AlikeAll arguments arguments'
  | .function p declaration, .function p' declaration' =>
    same p p' ∧ declaration.Alike declaration'
  | .choose p condition yes branches otherwise, .choose p' condition' yes' branches' otherwise' =>
    same p p' ∧ condition.Alike condition' ∧ yes.Alike yes' ∧
      Branch.AlikeAll branches branches' ∧ otherwise.Alike otherwise'
  | .switch p subject arms, .switch p' subject' arms' =>
    same p p' ∧ subject.Alike subject' ∧ Arm.AlikeAll arms arms'
  | .error p fault, .error p' fault' => same p p' ∧ fault = fault'
  | _, _ => False
termination_by structural piece => piece

/-- What is called is alike. -/
def Callee.Alike : Callee → Callee → Prop
  | .named name, .named name' => name = name'
  | .computed function, .computed function' => function.Alike function'
  | _, _ => False
termination_by structural piece => piece

/-- The rows have expressions that are alike. -/
def Expr.AlikeAll : List Expr → List Expr → Prop
  | [], [] => True
  | expr :: rest, expr' :: rest' => expr.Alike expr' ∧ Expr.AlikeAll rest rest'
  | _, _ => False
termination_by structural piece => piece

/-- The expressions are alike, or both are missing. -/
def Expr.AlikeOption : Option Expr → Option Expr → Prop
  | none, none => True
  | some expr, some expr' => expr.Alike expr'
  | _, _ => False
termination_by structural piece => piece

/-- The branches of two `if` expressions are alike. -/
def Branch.AlikeAll : List Branch → List Branch → Prop
  | [], [] => True
  | ⟨condition, result⟩ :: rest, ⟨condition', result'⟩ :: rest' =>
    condition.Alike condition' ∧ result.Alike result' ∧ Branch.AlikeAll rest rest'
  | _, _ => False
termination_by structural piece => piece

/-- The arms of two `switch` expressions are alike. -/
def Arm.AlikeAll : List Arm → List Arm → Prop
  | [], [] => True
  | ⟨pattern, result⟩ :: rest, ⟨pattern', result'⟩ :: rest' =>
    Expr.AlikeOption pattern pattern' ∧ result.Alike result' ∧ Arm.AlikeAll rest rest'
  | _, _ => False
termination_by structural piece => piece

/-- The statements are alike. -/
def Stmt.Alike : Stmt → Stmt → Prop
  | .expr expr, .expr expr' => expr.Alike expr'
  | .block body, .block body' => Stmt.AlikeAll body body'
  | .branch condition yes clauses otherwise, .branch condition' yes' clauses' otherwise' =>
    condition.Alike condition' ∧ yes.Alike yes' ∧ Clause.AlikeAll clauses clauses' ∧
      Stmt.AlikeOption otherwise otherwise'
  | .forLoop start condition step body, .forLoop start' condition' step' body' =>
    Expr.AlikeOption start start' ∧ Expr.AlikeOption condition condition' ∧
      Expr.AlikeOption step step' ∧ body.Alike body'
  | .foreachLoop element iterable body, .foreachLoop element' iterable' body' =>
    element = element' ∧ iterable.Alike iterable' ∧ body.Alike body'
  | .whileLoop condition body, .whileLoop condition' body' =>
    condition.Alike condition' ∧ body.Alike body'
  | .doWhileLoop body condition, .doWhileLoop body' condition' =>
    body.Alike body' ∧ condition.Alike condition'
  | .switch subject cases, .switch subject' cases' =>
    subject.Alike subject' ∧ Case.AlikeAll cases cases'
  | .breakStmt p, .breakStmt p' => same p p'
  | .continueStmt p, .continueStmt p' => same p p'
  | .returnStmt value, .returnStmt value' => Expr.AlikeOption value value'
  | .function declaration, .function declaration' => declaration.Alike declaration'
  | .empty, .empty => True
  | .error p fault, .error p' fault' => same p p' ∧ fault = fault'
  | _, _ => False
termination_by structural piece => piece

/-- The rows have statements that are alike. -/
def Stmt.AlikeAll : List Stmt → List Stmt → Prop
  | [], [] => True
  | statement :: rest, statement' :: rest' =>
    statement.Alike statement' ∧ Stmt.AlikeAll rest rest'
  | _, _ => False
termination_by structural piece => piece

/-- The statements are alike, or both are missing. -/
def Stmt.AlikeOption : Option Stmt → Option Stmt → Prop
  | none, none => True
  | some statement, some statement' => statement.Alike statement'
  | _, _ => False
termination_by structural piece => piece

/-- The clauses of two `if` statements are alike. -/
def Clause.AlikeAll : List Clause → List Clause → Prop
  | [], [] => True
  | ⟨condition, body⟩ :: rest, ⟨condition', body'⟩ :: rest' =>
    condition.Alike condition' ∧ body.Alike body' ∧ Clause.AlikeAll rest rest'
  | _, _ => False
termination_by structural piece => piece

/-- The cases of two `switch` statements are alike. -/
def Case.AlikeAll : List Case → List Case → Prop
  | [], [] => True
  | ⟨pattern, body⟩ :: rest, ⟨pattern', body'⟩ :: rest' =>
    Expr.AlikeOption pattern pattern' ∧ Stmt.AlikeAll body body' ∧ Case.AlikeAll rest rest'
  | _, _ => False
termination_by structural piece => piece

/-- The functions are alike. They may stand in source texts with different numbers. -/
def Declaration.Alike : Declaration → Declaration → Prop
  | ⟨_, p, name, parameters, body⟩, ⟨_, p', name', parameters', body'⟩ =>
    same p p' ∧ name = name' ∧ parameters = parameters' ∧ body.Alike body'
termination_by structural piece => piece

end

/-- The programs have the same global variables, and functions that are alike. -/
structure Program.Alike (program program' : Program) : Prop where
  globals : List.Forall₂ (fun declared declared' => declared.1 = declared'.1 ∧
    same declared.2 declared'.2) program.globals program'.globals
  functions : List.Forall₂ (Declaration.Alike same) program.functions program'.functions

end

theorem Expr.Alike.position {same : Position → Position → Prop} {expr expr' : Expr} :
    expr.Alike same expr' → same expr.position expr'.position := by
  fun_cases Expr.Alike same expr expr' with
  | case17 => exact False.elim
  | _ => exact fun h => h.1

theorem Expr.AlikeOption.isNone {same : Position → Position → Prop} {expr expr' : Option Expr}
    (h : Expr.AlikeOption same expr expr') : expr.isNone = expr'.isNone := by
  cases expr <;> cases expr'
  · rfl
  · exact False.elim h
  · exact False.elim h
  · rfl

theorem Declaration.Alike.position {same : Position → Position → Prop}
    {declaration declaration' : Declaration} (h : declaration.Alike same declaration') :
    same declaration.position declaration'.position := by
  cases declaration
  cases declaration'
  exact h.1

/-! ### Trees that are like themselves -/

/-- The check that the positions of a node are good ones. -/
def NodeCheck.placed (good : Position → Prop) : NodeCheck where
  expr
    | .function p declaration => good p ∧ good declaration.position
    | expr => good expr.position
  stmt
    | .breakStmt p | .continueStmt p | .error p _ => good p
    | .function declaration => good declaration.position
    | _ => True

section

variable {same : Position → Position → Prop} {good : Position → Prop}

mutual

theorem Expr.Alike.everywhere (hgood : ∀ p, same p p → good p) :
    ∀ expr : Expr, expr.Alike same expr → expr.Everywhere (.placed good)
  | .number p _, h | .text p _, h | .character p _, h | .boolean p _, h | .name p _, h
  | .error p _, h => hgood p h.1
  | .list p items, ⟨hp, hitems⟩ => ⟨hgood p hp, Expr.AlikeAll.everywhere hgood items hitems⟩
  | .index p collection index, ⟨hp, hcollection, hindex⟩ =>
    ⟨hgood p hp, Expr.Alike.everywhere hgood collection hcollection,
      Expr.Alike.everywhere hgood index hindex⟩
  | .binary p left _ right, ⟨hp, hleft, _, hright⟩ =>
    ⟨hgood p hp, Expr.Alike.everywhere hgood left hleft, Expr.Alike.everywhere hgood right hright⟩
  | .unary p _ _ operand, ⟨hp, _, _, hoperand⟩ =>
    ⟨hgood p hp, Expr.Alike.everywhere hgood operand hoperand⟩
  | .ternary p condition yes no, ⟨hp, hcondition, hyes, hno⟩ =>
    ⟨hgood p hp, Expr.Alike.everywhere hgood condition hcondition,
      Expr.Alike.everywhere hgood yes hyes, Expr.Alike.everywhere hgood no hno⟩
  | .assign p target _ value, ⟨hp, htarget, _, hvalue⟩ =>
    ⟨hgood p hp, Expr.Alike.everywhere hgood target htarget,
      Expr.Alike.everywhere hgood value hvalue⟩
  | .call p callee arguments, ⟨hp, hcallee, harguments⟩ =>
    ⟨hgood p hp, Callee.Alike.everywhere hgood callee hcallee,
      Expr.AlikeAll.everywhere hgood arguments harguments⟩
  | .function p declaration, ⟨hp, hdeclaration⟩ =>
    ⟨⟨hgood p hp, hgood _ hdeclaration.position⟩,
      Declaration.Alike.everywhere hgood declaration hdeclaration⟩
  | .choose p condition yes branches otherwise, ⟨hp, hcondition, hyes, hbranches, hotherwise⟩ =>
    ⟨hgood p hp, Expr.Alike.everywhere hgood condition hcondition,
      Expr.Alike.everywhere hgood yes hyes, Branch.AlikeAll.everywhere hgood branches hbranches,
      Expr.Alike.everywhere hgood otherwise hotherwise⟩
  | .switch p subject arms, ⟨hp, hsubject, harms⟩ =>
    ⟨hgood p hp, Expr.Alike.everywhere hgood subject hsubject,
      Arm.AlikeAll.everywhere hgood arms harms⟩

theorem Callee.Alike.everywhere (hgood : ∀ p, same p p → good p) :
    ∀ callee : Callee, callee.Alike same callee → callee.Everywhere (.placed good)
  | .named _, _ => trivial
  | .computed function, h => Expr.Alike.everywhere hgood function h

theorem Expr.AlikeAll.everywhere (hgood : ∀ p, same p p → good p) :
    ∀ exprs : List Expr, Expr.AlikeAll same exprs exprs → Expr.EverywhereAll (.placed good) exprs
  | [], _ => trivial
  | expr :: rest, ⟨hexpr, hrest⟩ =>
    ⟨Expr.Alike.everywhere hgood expr hexpr, Expr.AlikeAll.everywhere hgood rest hrest⟩

theorem Expr.AlikeOption.everywhere (hgood : ∀ p, same p p → good p) :
    ∀ expr : Option Expr, Expr.AlikeOption same expr expr →
      Expr.EverywhereOption (.placed good) expr
  | none, _ => trivial
  | some expr, h => Expr.Alike.everywhere hgood expr h

theorem Branch.AlikeAll.everywhere (hgood : ∀ p, same p p → good p) :
    ∀ branches : List Branch, Branch.AlikeAll same branches branches →
      Branch.EverywhereAll (.placed good) branches
  | [], _ => trivial
  | ⟨condition, result⟩ :: rest, ⟨hcondition, hresult, hrest⟩ =>
    ⟨Expr.Alike.everywhere hgood condition hcondition, Expr.Alike.everywhere hgood result hresult,
      Branch.AlikeAll.everywhere hgood rest hrest⟩

theorem Arm.AlikeAll.everywhere (hgood : ∀ p, same p p → good p) :
    ∀ arms : List Arm, Arm.AlikeAll same arms arms → Arm.EverywhereAll (.placed good) arms
  | [], _ => trivial
  | ⟨pattern, result⟩ :: rest, ⟨hpattern, hresult, hrest⟩ =>
    ⟨Expr.AlikeOption.everywhere hgood pattern hpattern, Expr.Alike.everywhere hgood result hresult,
      Arm.AlikeAll.everywhere hgood rest hrest⟩

theorem Stmt.Alike.everywhere (hgood : ∀ p, same p p → good p) :
    ∀ statement : Stmt, statement.Alike same statement → statement.Everywhere (.placed good)
  | .expr expr, h => ⟨trivial, Expr.Alike.everywhere hgood expr h⟩
  | .block body, h => ⟨trivial, Stmt.AlikeAll.everywhere hgood body h⟩
  | .branch condition yes clauses otherwise, ⟨hcondition, hyes, hclauses, hotherwise⟩ =>
    ⟨trivial, Expr.Alike.everywhere hgood condition hcondition,
      Stmt.Alike.everywhere hgood yes hyes, Clause.AlikeAll.everywhere hgood clauses hclauses,
      Stmt.AlikeOption.everywhere hgood otherwise hotherwise⟩
  | .forLoop start condition step body, ⟨hstart, hcondition, hstep, hbody⟩ =>
    ⟨trivial, Expr.AlikeOption.everywhere hgood start hstart,
      Expr.AlikeOption.everywhere hgood condition hcondition,
      Expr.AlikeOption.everywhere hgood step hstep, Stmt.Alike.everywhere hgood body hbody⟩
  | .foreachLoop _ iterable body, ⟨_, hiterable, hbody⟩ =>
    ⟨trivial, Expr.Alike.everywhere hgood iterable hiterable,
      Stmt.Alike.everywhere hgood body hbody⟩
  | .whileLoop condition body, ⟨hcondition, hbody⟩ =>
    ⟨trivial, Expr.Alike.everywhere hgood condition hcondition,
      Stmt.Alike.everywhere hgood body hbody⟩
  | .doWhileLoop body condition, ⟨hbody, hcondition⟩ =>
    ⟨trivial, Stmt.Alike.everywhere hgood body hbody,
      Expr.Alike.everywhere hgood condition hcondition⟩
  | .switch subject cases, ⟨hsubject, hcases⟩ =>
    ⟨trivial, Expr.Alike.everywhere hgood subject hsubject,
      Case.AlikeAll.everywhere hgood cases hcases⟩
  | .breakStmt p, h | .continueStmt p, h => hgood p h
  | .returnStmt value, h => ⟨trivial, Expr.AlikeOption.everywhere hgood value h⟩
  | .function declaration, h =>
    ⟨hgood _ h.position, Declaration.Alike.everywhere hgood declaration h⟩
  | .empty, _ => trivial
  | .error p _, h => hgood p h.1

theorem Stmt.AlikeAll.everywhere (hgood : ∀ p, same p p → good p) :
    ∀ statements : List Stmt, Stmt.AlikeAll same statements statements →
      Stmt.EverywhereAll (.placed good) statements
  | [], _ => trivial
  | statement :: rest, ⟨hstatement, hrest⟩ =>
    ⟨Stmt.Alike.everywhere hgood statement hstatement, Stmt.AlikeAll.everywhere hgood rest hrest⟩

theorem Stmt.AlikeOption.everywhere (hgood : ∀ p, same p p → good p) :
    ∀ statement : Option Stmt, Stmt.AlikeOption same statement statement →
      Stmt.EverywhereOption (.placed good) statement
  | none, _ => trivial
  | some statement, h => Stmt.Alike.everywhere hgood statement h

theorem Clause.AlikeAll.everywhere (hgood : ∀ p, same p p → good p) :
    ∀ clauses : List Clause, Clause.AlikeAll same clauses clauses →
      Clause.EverywhereAll (.placed good) clauses
  | [], _ => trivial
  | ⟨condition, body⟩ :: rest, ⟨hcondition, hbody, hrest⟩ =>
    ⟨Expr.Alike.everywhere hgood condition hcondition, Stmt.Alike.everywhere hgood body hbody,
      Clause.AlikeAll.everywhere hgood rest hrest⟩

theorem Case.AlikeAll.everywhere (hgood : ∀ p, same p p → good p) :
    ∀ cases : List Case, Case.AlikeAll same cases cases → Case.EverywhereAll (.placed good) cases
  | [], _ => trivial
  | ⟨pattern, body⟩ :: rest, ⟨hpattern, hbody, hrest⟩ =>
    ⟨Expr.AlikeOption.everywhere hgood pattern hpattern, Stmt.AlikeAll.everywhere hgood body hbody,
      Case.AlikeAll.everywhere hgood rest hrest⟩

theorem Declaration.Alike.everywhere (hgood : ∀ p, same p p → good p) :
    ∀ declaration : Declaration, declaration.Alike same declaration →
      declaration.Everywhere (.placed good)
  | ⟨_, _, _, _, body⟩, ⟨_, _, _, hbody⟩ => Stmt.Alike.everywhere hgood body hbody

end

end

end Betty
