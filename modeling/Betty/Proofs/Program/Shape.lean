import Betty.Proofs.Program.Nodes
import Betty.Proofs.Program.Print

/-!
# The shape of programs

Not every tree can be the program of a text. What the parser never builds is said here node by
node, together with the list of the places where functions are defined.

## Main definitions

* `NodeCheck.shaped`: what holds of every node that the parser builds.
* `Expr.declared`, `Stmt.declared`, `Program.declared`: where functions are defined.
-/

namespace Betty

/-- The operators that an assignment can be combined with. -/
def BinaryOp.compound : List BinaryOp :=
  [.add, .sub, .mul, .div, .floorDiv, .rem, .pow]

/-- The body of the function is a block. -/
def Declaration.HasBlock (declaration : Declaration) : Prop :=
  ∃ body, declaration.body = .block body

/-- What holds of every node that the parser builds, error nodes included.

* Only steps stand after their operands.
* Assignments are plain, or combined with an arithmetic operator.
* Where something other than a named function is called, it is not just a name.
* Functions in expressions have no name, and functions in statements have one. The body of
  both is a block.
* The arm or case without a pattern, if there is one, is the only one and the last. -/
def NodeCheck.shaped : NodeCheck where
  expr
    | .unary _ op .trailing _ => op = .increment ∨ op = .decrement
    | .assign _ _ (some op) _ => op ∈ BinaryOp.compound
    | .call _ (.computed function) _ => ¬ function.isName
    | .function _ declaration => declaration.name = none ∧ declaration.HasBlock
    | .switch _ _ arms => wildcardLast (arms.map Arm.pattern)
    | _ => True
  stmt
    | .function declaration => declaration.name.isSome ∧ declaration.HasBlock
    | .switch _ cases => wildcardLast (cases.map Case.pattern)
    | _ => True

mutual

/-- Where functions are defined in an expression, in the order of the text. -/
def Expr.declared : Expr → List Position
  | .number _ _ | .text _ _ | .character _ _ | .boolean _ _ | .name _ _ | .error _ _ => []
  | .list _ items => Expr.declaredAll items
  | .index _ collection index => collection.declared ++ index.declared
  | .binary _ left _ right => left.declared ++ right.declared
  | .unary _ _ _ operand => operand.declared
  | .ternary _ condition yes no => condition.declared ++ yes.declared ++ no.declared
  | .assign _ target _ value => target.declared ++ value.declared
  | .call _ callee arguments => callee.declared ++ Expr.declaredAll arguments
  | .function _ declaration => declaration.declared
  | .choose _ condition yes branches otherwise =>
    condition.declared ++ yes.declared ++ Branch.declaredAll branches ++ otherwise.declared
  | .switch _ subject arms => subject.declared ++ Arm.declaredAll arms

/-- Where functions are defined in what is called. -/
def Callee.declared : Callee → List Position
  | .named _ => []
  | .computed function => function.declared

/-- Where functions are defined in a row of expressions. -/
def Expr.declaredAll : List Expr → List Position
  | [] => []
  | expr :: rest => expr.declared ++ Expr.declaredAll rest

/-- Where functions are defined in an expression that may be missing. -/
def Expr.declaredOption : Option Expr → List Position
  | none => []
  | some expr => expr.declared

/-- Where functions are defined in the branches of an `if` expression. -/
def Branch.declaredAll : List Branch → List Position
  | [] => []
  | ⟨condition, result⟩ :: rest =>
    condition.declared ++ result.declared ++ Branch.declaredAll rest

/-- Where functions are defined in the arms of a `switch` expression. -/
def Arm.declaredAll : List Arm → List Position
  | [] => []
  | ⟨pattern, result⟩ :: rest =>
    Expr.declaredOption pattern ++ result.declared ++ Arm.declaredAll rest

/-- Where functions are defined in a statement, in the order of the text. -/
def Stmt.declared : Stmt → List Position
  | .expr expr => expr.declared
  | .block body => Stmt.declaredAll body
  | .branch condition yes clauses otherwise =>
    condition.declared ++ yes.declared ++ Clause.declaredAll clauses ++
      Stmt.declaredOption otherwise
  | .forLoop start condition step body =>
    Expr.declaredOption start ++ Expr.declaredOption condition ++ Expr.declaredOption step ++
      body.declared
  | .foreachLoop _ iterable body => iterable.declared ++ body.declared
  | .whileLoop condition body => condition.declared ++ body.declared
  | .doWhileLoop body condition => body.declared ++ condition.declared
  | .switch subject cases => subject.declared ++ Case.declaredAll cases
  | .returnStmt value => Expr.declaredOption value
  | .function declaration => declaration.declared
  | .breakStmt _ | .continueStmt _ | .empty | .error _ _ => []

/-- Where functions are defined in a row of statements. -/
def Stmt.declaredAll : List Stmt → List Position
  | [] => []
  | statement :: rest => statement.declared ++ Stmt.declaredAll rest

/-- Where functions are defined in a statement that may be missing. -/
def Stmt.declaredOption : Option Stmt → List Position
  | none => []
  | some statement => statement.declared

/-- Where functions are defined in the clauses of an `if` statement. -/
def Clause.declaredAll : List Clause → List Position
  | [] => []
  | ⟨condition, body⟩ :: rest => condition.declared ++ body.declared ++ Clause.declaredAll rest

/-- Where functions are defined in the cases of a `switch` statement. -/
def Case.declaredAll : List Case → List Position
  | [] => []
  | ⟨pattern, body⟩ :: rest =>
    Expr.declaredOption pattern ++ Stmt.declaredAll body ++ Case.declaredAll rest

/-- Where a function and the functions inside it are defined. -/
def Declaration.declared : Declaration → List Position
  | ⟨_, position, _, _, body⟩ => position :: body.declared

end

theorem Arm.declaredAll_append (arms rest : List Arm) :
    Arm.declaredAll (arms ++ rest) = Arm.declaredAll arms ++ Arm.declaredAll rest := by
  induction arms with
  | nil => rfl
  | cons arm arms ih =>
    obtain ⟨pattern, result⟩ := arm
    simp [Arm.declaredAll, ih]

theorem Stmt.declaredAll_append (statements rest : List Stmt) :
    Stmt.declaredAll (statements ++ rest) =
      Stmt.declaredAll statements ++ Stmt.declaredAll rest := by
  induction statements with
  | nil => rfl
  | cons statement statements ih => simp [Stmt.declaredAll, ih]

theorem Case.declaredAll_append (cases rest : List Case) :
    Case.declaredAll (cases ++ rest) = Case.declaredAll cases ++ Case.declaredAll rest := by
  induction cases with
  | nil => rfl
  | cons found cases ih =>
    obtain ⟨pattern, body⟩ := found
    simp [Case.declaredAll, ih]

/-- Where the functions of a program and the functions inside them are defined. -/
def Program.declared (program : Program) : List Position :=
  program.functions.flatMap Declaration.declared

end Betty
