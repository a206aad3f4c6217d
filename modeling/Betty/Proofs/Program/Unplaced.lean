import Betty.Program

/-!
# Programs without their positions

Two programs are alike up to positions if they are equal once every position, and every
number of a source text, has been replaced by the same one.

## Main definitions

* `Expr.unplaced`, `Stmt.unplaced`, `Declaration.unplaced`, `Program.unplaced`.
-/

namespace Betty

mutual

/-- The expression with all positions forgotten. -/
def Expr.unplaced : Expr → Expr
  | .number _ value => .number .unknown value
  | .text _ value => .text .unknown value
  | .character _ value => .character .unknown value
  | .boolean _ value => .boolean .unknown value
  | .name _ name => .name .unknown name
  | .list _ items => .list .unknown (Expr.unplacedAll items)
  | .index _ collection index => .index .unknown collection.unplaced index.unplaced
  | .binary _ left op right => .binary .unknown left.unplaced op right.unplaced
  | .unary _ op fixity operand => .unary .unknown op fixity operand.unplaced
  | .ternary _ condition yes no =>
    .ternary .unknown condition.unplaced yes.unplaced no.unplaced
  | .assign _ target op value => .assign .unknown target.unplaced op value.unplaced
  | .call _ callee arguments => .call .unknown callee.unplaced (Expr.unplacedAll arguments)
  | .function _ declaration => .function .unknown declaration.unplaced
  | .choose _ condition yes branches otherwise =>
    .choose .unknown condition.unplaced yes.unplaced (Branch.unplacedAll branches)
      otherwise.unplaced
  | .switch _ subject arms => .switch .unknown subject.unplaced (Arm.unplacedAll arms)
  | .error _ fault => .error .unknown fault

/-- What is called, with all positions forgotten. -/
def Callee.unplaced : Callee → Callee
  | .named name => .named name
  | .computed function => .computed function.unplaced

/-- The expressions with all positions forgotten. -/
def Expr.unplacedAll : List Expr → List Expr
  | [] => []
  | expr :: rest => expr.unplaced :: Expr.unplacedAll rest

/-- The expression, if there is one, with all positions forgotten. -/
def Expr.unplacedOption : Option Expr → Option Expr
  | none => none
  | some expr => some expr.unplaced

/-- The branches with all positions forgotten. -/
def Branch.unplacedAll : List Branch → List Branch
  | [] => []
  | ⟨condition, result⟩ :: rest =>
    ⟨condition.unplaced, result.unplaced⟩ :: Branch.unplacedAll rest

/-- The arms with all positions forgotten. -/
def Arm.unplacedAll : List Arm → List Arm
  | [] => []
  | ⟨pattern, result⟩ :: rest =>
    ⟨Expr.unplacedOption pattern, result.unplaced⟩ :: Arm.unplacedAll rest

/-- The statement with all positions forgotten. -/
def Stmt.unplaced : Stmt → Stmt
  | .expr expr => .expr expr.unplaced
  | .block body => .block (Stmt.unplacedAll body)
  | .branch condition yes clauses otherwise =>
    .branch condition.unplaced yes.unplaced (Clause.unplacedAll clauses)
      (Stmt.unplacedOption otherwise)
  | .forLoop start condition step body =>
    .forLoop (Expr.unplacedOption start) (Expr.unplacedOption condition)
      (Expr.unplacedOption step) body.unplaced
  | .foreachLoop element iterable body => .foreachLoop element iterable.unplaced body.unplaced
  | .whileLoop condition body => .whileLoop condition.unplaced body.unplaced
  | .doWhileLoop body condition => .doWhileLoop body.unplaced condition.unplaced
  | .switch subject cases => .switch subject.unplaced (Case.unplacedAll cases)
  | .breakStmt _ => .breakStmt .unknown
  | .continueStmt _ => .continueStmt .unknown
  | .returnStmt value => .returnStmt (Expr.unplacedOption value)
  | .function declaration => .function declaration.unplaced
  | .empty => .empty
  | .error _ fault => .error .unknown fault

/-- The statements with all positions forgotten. -/
def Stmt.unplacedAll : List Stmt → List Stmt
  | [] => []
  | statement :: rest => statement.unplaced :: Stmt.unplacedAll rest

/-- The statement, if there is one, with all positions forgotten. -/
def Stmt.unplacedOption : Option Stmt → Option Stmt
  | none => none
  | some statement => some statement.unplaced

/-- The clauses with all positions forgotten. -/
def Clause.unplacedAll : List Clause → List Clause
  | [] => []
  | ⟨condition, body⟩ :: rest =>
    ⟨condition.unplaced, body.unplaced⟩ :: Clause.unplacedAll rest

/-- The cases with all positions forgotten. -/
def Case.unplacedAll : List Case → List Case
  | [] => []
  | ⟨pattern, body⟩ :: rest =>
    ⟨Expr.unplacedOption pattern, Stmt.unplacedAll body⟩ :: Case.unplacedAll rest

/-- The function with all positions and the number of its source text forgotten. -/
def Declaration.unplaced : Declaration → Declaration
  | ⟨_, _, name, parameters, body⟩ => ⟨0, .unknown, name, parameters, body.unplaced⟩

end

theorem Case.unplacedAll_cons (first : Case) (rest : List Case) :
    Case.unplacedAll (first :: rest) =
      ⟨Expr.unplacedOption first.pattern, Stmt.unplacedAll first.body⟩ ::
        Case.unplacedAll rest := by
  cases first
  rfl

/-- The program with all positions forgotten. -/
def Program.unplaced (program : Program) : Program where
  globals := program.globals.map fun declared => (declared.1, .unknown)
  functions := program.functions.map Declaration.unplaced

/-- Is the expression a name alone? -/
def Expr.isName : Expr → Bool
  | .name _ _ => true
  | _ => false

end Betty
