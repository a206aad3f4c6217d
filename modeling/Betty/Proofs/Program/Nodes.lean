import Betty.Program

/-!
# Checks at every node of a program

A check says what is to hold of a single expression or statement. It holds everywhere in
a tree if it holds at each node, at any depth: also in the bodies of the functions that
the tree defines.

## Main definitions

* `NodeCheck`: what is to hold of a node.
* `NodeCheck.noErrors`: it is not an error node.
* `NodeCheck.declares`: it declares only names that are allowed.
* `Expr.Everywhere`, `Stmt.Everywhere`, `Program.Everywhere`: it holds at all nodes.
* `NodeCheck.Vacuous`: all nodes pass, so the check holds everywhere in every tree.
-/

namespace Betty

/-- What is to hold of the single nodes of a tree. -/
structure NodeCheck where
  expr : Expr → Prop
  stmt : Stmt → Prop

/-- The check that a node is not an error node. -/
def NodeCheck.noErrors : NodeCheck where
  expr
    | .error _ _ => False
    | _ => True
  stmt
    | .error _ _ => False
    | _ => True

/-- The check that a node declares only names that are allowed: those of parameters and
those of functions inside functions. -/
def NodeCheck.declares (allowed : String → Prop) : NodeCheck where
  expr
    | .function _ declaration => ∀ parameter ∈ declaration.parameters, allowed parameter
    | _ => True
  stmt
    | .function declaration =>
      allowed declaration.displayName ∧ ∀ parameter ∈ declaration.parameters, allowed parameter
    | _ => True

section

variable (check : NodeCheck)

mutual

/-- The check holds at every node of an expression. -/
def Expr.Everywhere : Expr → Prop
  | .number p value => check.expr (.number p value)
  | .text p value => check.expr (.text p value)
  | .character p value => check.expr (.character p value)
  | .boolean p value => check.expr (.boolean p value)
  | .name p name => check.expr (.name p name)
  | .list p items => check.expr (.list p items) ∧ Expr.EverywhereAll items
  | .index p collection index =>
    check.expr (.index p collection index) ∧ collection.Everywhere ∧ index.Everywhere
  | .binary p left op right =>
    check.expr (.binary p left op right) ∧ left.Everywhere ∧ right.Everywhere
  | .unary p op fixity operand => check.expr (.unary p op fixity operand) ∧ operand.Everywhere
  | .ternary p condition yes no =>
    check.expr (.ternary p condition yes no) ∧ condition.Everywhere ∧ yes.Everywhere ∧
      no.Everywhere
  | .assign p target op value =>
    check.expr (.assign p target op value) ∧ target.Everywhere ∧ value.Everywhere
  | .call p callee arguments =>
    check.expr (.call p callee arguments) ∧ callee.Everywhere ∧ Expr.EverywhereAll arguments
  | .function p declaration =>
    check.expr (.function p declaration) ∧ declaration.Everywhere
  | .choose p condition yes branches otherwise =>
    check.expr (.choose p condition yes branches otherwise) ∧ condition.Everywhere ∧
      yes.Everywhere ∧ Branch.EverywhereAll branches ∧ otherwise.Everywhere
  | .switch p subject arms =>
    check.expr (.switch p subject arms) ∧ subject.Everywhere ∧ Arm.EverywhereAll arms
  | .error p fault => check.expr (.error p fault)

/-- The check holds everywhere in what is called. -/
def Callee.Everywhere : Callee → Prop
  | .named _ => True
  | .computed function => function.Everywhere

/-- The check holds everywhere in each expression of a row. -/
def Expr.EverywhereAll : List Expr → Prop
  | [] => True
  | expr :: rest => expr.Everywhere ∧ Expr.EverywhereAll rest

/-- The check holds everywhere in an expression that may be missing. -/
def Expr.EverywhereOption : Option Expr → Prop
  | none => True
  | some expr => expr.Everywhere

/-- The check holds everywhere in the branches of an `if` expression. -/
def Branch.EverywhereAll : List Branch → Prop
  | [] => True
  | ⟨condition, result⟩ :: rest =>
    condition.Everywhere ∧ result.Everywhere ∧ Branch.EverywhereAll rest

/-- The check holds everywhere in the arms of a `switch` expression. -/
def Arm.EverywhereAll : List Arm → Prop
  | [] => True
  | ⟨pattern, result⟩ :: rest =>
    Expr.EverywhereOption pattern ∧ result.Everywhere ∧ Arm.EverywhereAll rest

/-- The check holds at every node of a statement. -/
def Stmt.Everywhere : Stmt → Prop
  | .expr expr => check.stmt (.expr expr) ∧ expr.Everywhere
  | .block body => check.stmt (.block body) ∧ Stmt.EverywhereAll body
  | .branch condition yes clauses otherwise =>
    check.stmt (.branch condition yes clauses otherwise) ∧ condition.Everywhere ∧
      yes.Everywhere ∧ Clause.EverywhereAll clauses ∧ Stmt.EverywhereOption otherwise
  | .forLoop start condition step body =>
    check.stmt (.forLoop start condition step body) ∧ Expr.EverywhereOption start ∧
      Expr.EverywhereOption condition ∧ Expr.EverywhereOption step ∧ body.Everywhere
  | .foreachLoop element iterable body =>
    check.stmt (.foreachLoop element iterable body) ∧ iterable.Everywhere ∧ body.Everywhere
  | .whileLoop condition body =>
    check.stmt (.whileLoop condition body) ∧ condition.Everywhere ∧ body.Everywhere
  | .doWhileLoop body condition =>
    check.stmt (.doWhileLoop body condition) ∧ body.Everywhere ∧ condition.Everywhere
  | .switch subject cases =>
    check.stmt (.switch subject cases) ∧ subject.Everywhere ∧ Case.EverywhereAll cases
  | .breakStmt p => check.stmt (.breakStmt p)
  | .continueStmt p => check.stmt (.continueStmt p)
  | .returnStmt value => check.stmt (.returnStmt value) ∧ Expr.EverywhereOption value
  | .function declaration => check.stmt (.function declaration) ∧ declaration.Everywhere
  | .empty => check.stmt .empty
  | .error p fault => check.stmt (.error p fault)

/-- The check holds everywhere in each statement of a row. -/
def Stmt.EverywhereAll : List Stmt → Prop
  | [] => True
  | statement :: rest => statement.Everywhere ∧ Stmt.EverywhereAll rest

/-- The check holds everywhere in a statement that may be missing. -/
def Stmt.EverywhereOption : Option Stmt → Prop
  | none => True
  | some statement => statement.Everywhere

/-- The check holds everywhere in the clauses of an `if` statement. -/
def Clause.EverywhereAll : List Clause → Prop
  | [] => True
  | ⟨condition, body⟩ :: rest =>
    condition.Everywhere ∧ body.Everywhere ∧ Clause.EverywhereAll rest

/-- The check holds everywhere in the cases of a `switch` statement. -/
def Case.EverywhereAll : List Case → Prop
  | [] => True
  | ⟨pattern, body⟩ :: rest =>
    Expr.EverywhereOption pattern ∧ Stmt.EverywhereAll body ∧ Case.EverywhereAll rest

/-- The check holds everywhere in the body of a function. -/
def Declaration.Everywhere : Declaration → Prop
  | ⟨_, _, _, _, body⟩ => body.Everywhere

end

/-- The check holds everywhere in the functions of a program. -/
def Program.Everywhere (program : Program) : Prop :=
  ∀ declaration ∈ program.functions, declaration.Everywhere check

variable {check}

theorem Declaration.everywhere_iff {declaration : Declaration} :
    declaration.Everywhere check ↔ declaration.body.Everywhere check := by
  cases declaration
  rfl

/-! ### Rows of nodes -/

theorem Stmt.everywhereAll_iff {statements : List Stmt} :
    Stmt.EverywhereAll check statements ↔
      ∀ statement ∈ statements, statement.Everywhere check := by
  induction statements with
  | nil => simp [Stmt.EverywhereAll]
  | cons statement rest ih => simp [Stmt.EverywhereAll, ih]

theorem Arm.everywhereAll_iff {arms : List Arm} :
    Arm.EverywhereAll check arms ↔
      ∀ arm ∈ arms, Expr.EverywhereOption check arm.pattern ∧ arm.result.Everywhere check := by
  induction arms with
  | nil => simp [Arm.EverywhereAll]
  | cons arm rest ih =>
    obtain ⟨pattern, result⟩ := arm
    simp [Arm.EverywhereAll, ih, and_assoc]

theorem Case.everywhereAll_iff {cases : List Case} :
    Case.EverywhereAll check cases ↔
      ∀ found ∈ cases, Expr.EverywhereOption check found.pattern ∧
        Stmt.EverywhereAll check found.body := by
  induction cases with
  | nil => simp [Case.EverywhereAll]
  | cons first rest ih =>
    obtain ⟨pattern, body⟩ := first
    simp [Case.EverywhereAll, ih, and_assoc]

theorem Stmt.everywhereAll_append {statements rest : List Stmt}
    (h : Stmt.EverywhereAll check statements) (h' : Stmt.EverywhereAll check rest) :
    Stmt.EverywhereAll check (statements ++ rest) := by
  rw [Stmt.everywhereAll_iff] at h h' ⊢
  exact List.forall_mem_append.2 ⟨h, h'⟩

theorem Arm.everywhereAll_append {arms rest : List Arm} (h : Arm.EverywhereAll check arms)
    (h' : Arm.EverywhereAll check rest) : Arm.EverywhereAll check (arms ++ rest) := by
  rw [Arm.everywhereAll_iff] at h h' ⊢
  exact List.forall_mem_append.2 ⟨h, h'⟩

theorem Case.everywhereAll_append {cases rest : List Case} (h : Case.EverywhereAll check cases)
    (h' : Case.EverywhereAll check rest) : Case.EverywhereAll check (cases ++ rest) := by
  rw [Case.everywhereAll_iff] at h h' ⊢
  exact List.forall_mem_append.2 ⟨h, h'⟩

end

/-! ### Checks that all nodes pass -/

/-- Every node passes the check. -/
structure NodeCheck.Vacuous (check : NodeCheck) : Prop where
  expr : ∀ expr, check.expr expr
  stmt : ∀ statement, check.stmt statement

section

variable {check : NodeCheck}

mutual

theorem Expr.everywhere_of_vacuous (h : check.Vacuous) : ∀ expr : Expr, expr.Everywhere check
  | .number _ _ | .text _ _ | .character _ _ | .boolean _ _ | .name _ _ | .error _ _ => h.expr _
  | .list _ items => ⟨h.expr _, Expr.everywhereAll_of_vacuous h items⟩
  | .index _ collection index =>
    ⟨h.expr _, collection.everywhere_of_vacuous h, index.everywhere_of_vacuous h⟩
  | .binary _ left _ right =>
    ⟨h.expr _, left.everywhere_of_vacuous h, right.everywhere_of_vacuous h⟩
  | .unary _ _ _ operand => ⟨h.expr _, operand.everywhere_of_vacuous h⟩
  | .ternary _ condition yes no =>
    ⟨h.expr _, condition.everywhere_of_vacuous h, yes.everywhere_of_vacuous h,
      no.everywhere_of_vacuous h⟩
  | .assign _ target _ value =>
    ⟨h.expr _, target.everywhere_of_vacuous h, value.everywhere_of_vacuous h⟩
  | .call _ callee arguments =>
    ⟨h.expr _, callee.everywhere_of_vacuous h, Expr.everywhereAll_of_vacuous h arguments⟩
  | .function _ declaration => ⟨h.expr _, declaration.everywhere_of_vacuous h⟩
  | .choose _ condition yes branches otherwise =>
    ⟨h.expr _, condition.everywhere_of_vacuous h, yes.everywhere_of_vacuous h,
      Branch.everywhereAll_of_vacuous h branches, otherwise.everywhere_of_vacuous h⟩
  | .switch _ subject arms =>
    ⟨h.expr _, subject.everywhere_of_vacuous h, Arm.everywhereAll_of_vacuous h arms⟩

theorem Callee.everywhere_of_vacuous (h : check.Vacuous) :
    ∀ callee : Callee, callee.Everywhere check
  | .named _ => trivial
  | .computed function => function.everywhere_of_vacuous h

theorem Expr.everywhereAll_of_vacuous (h : check.Vacuous) :
    ∀ exprs : List Expr, Expr.EverywhereAll check exprs
  | [] => trivial
  | expr :: rest => ⟨expr.everywhere_of_vacuous h, Expr.everywhereAll_of_vacuous h rest⟩

theorem Expr.everywhereOption_of_vacuous (h : check.Vacuous) :
    ∀ expr : Option Expr, Expr.EverywhereOption check expr
  | none => trivial
  | some expr => expr.everywhere_of_vacuous h

theorem Branch.everywhereAll_of_vacuous (h : check.Vacuous) :
    ∀ branches : List Branch, Branch.EverywhereAll check branches
  | [] => trivial
  | ⟨condition, result⟩ :: rest =>
    ⟨condition.everywhere_of_vacuous h, result.everywhere_of_vacuous h,
      Branch.everywhereAll_of_vacuous h rest⟩

theorem Arm.everywhereAll_of_vacuous (h : check.Vacuous) :
    ∀ arms : List Arm, Arm.EverywhereAll check arms
  | [] => trivial
  | ⟨pattern, result⟩ :: rest =>
    ⟨Expr.everywhereOption_of_vacuous h pattern, result.everywhere_of_vacuous h,
      Arm.everywhereAll_of_vacuous h rest⟩

theorem Stmt.everywhere_of_vacuous (h : check.Vacuous) :
    ∀ statement : Stmt, statement.Everywhere check
  | .expr expr => ⟨h.stmt _, expr.everywhere_of_vacuous h⟩
  | .block body => ⟨h.stmt _, Stmt.everywhereAll_of_vacuous h body⟩
  | .branch condition yes clauses otherwise =>
    ⟨h.stmt _, condition.everywhere_of_vacuous h, yes.everywhere_of_vacuous h,
      Clause.everywhereAll_of_vacuous h clauses, Stmt.everywhereOption_of_vacuous h otherwise⟩
  | .forLoop start condition step body =>
    ⟨h.stmt _, Expr.everywhereOption_of_vacuous h start,
      Expr.everywhereOption_of_vacuous h condition, Expr.everywhereOption_of_vacuous h step,
      body.everywhere_of_vacuous h⟩
  | .foreachLoop _ iterable body =>
    ⟨h.stmt _, iterable.everywhere_of_vacuous h, body.everywhere_of_vacuous h⟩
  | .whileLoop condition body =>
    ⟨h.stmt _, condition.everywhere_of_vacuous h, body.everywhere_of_vacuous h⟩
  | .doWhileLoop body condition =>
    ⟨h.stmt _, body.everywhere_of_vacuous h, condition.everywhere_of_vacuous h⟩
  | .switch subject cases =>
    ⟨h.stmt _, subject.everywhere_of_vacuous h, Case.everywhereAll_of_vacuous h cases⟩
  | .breakStmt _ | .continueStmt _ | .empty | .error _ _ => h.stmt _
  | .returnStmt value => ⟨h.stmt _, Expr.everywhereOption_of_vacuous h value⟩
  | .function declaration => ⟨h.stmt _, declaration.everywhere_of_vacuous h⟩

theorem Stmt.everywhereAll_of_vacuous (h : check.Vacuous) :
    ∀ statements : List Stmt, Stmt.EverywhereAll check statements
  | [] => trivial
  | statement :: rest => ⟨statement.everywhere_of_vacuous h, Stmt.everywhereAll_of_vacuous h rest⟩

theorem Stmt.everywhereOption_of_vacuous (h : check.Vacuous) :
    ∀ statement : Option Stmt, Stmt.EverywhereOption check statement
  | none => trivial
  | some statement => statement.everywhere_of_vacuous h

theorem Clause.everywhereAll_of_vacuous (h : check.Vacuous) :
    ∀ clauses : List Clause, Clause.EverywhereAll check clauses
  | [] => trivial
  | ⟨condition, body⟩ :: rest =>
    ⟨condition.everywhere_of_vacuous h, body.everywhere_of_vacuous h,
      Clause.everywhereAll_of_vacuous h rest⟩

theorem Case.everywhereAll_of_vacuous (h : check.Vacuous) :
    ∀ cases : List Case, Case.EverywhereAll check cases
  | [] => trivial
  | ⟨pattern, body⟩ :: rest =>
    ⟨Expr.everywhereOption_of_vacuous h pattern, Stmt.everywhereAll_of_vacuous h body,
      Case.everywhereAll_of_vacuous h rest⟩

theorem Declaration.everywhere_of_vacuous (h : check.Vacuous) :
    ∀ declaration : Declaration, declaration.Everywhere check
  | ⟨_, _, _, _, body⟩ => body.everywhere_of_vacuous h

end

end

end Betty
