import Betty.Operator
import Betty.SyntaxError

/-!
# Programs

The tree form of a program. Every expression carries the position that runtime
errors in it are reported at. Where a text is malformed the tree holds an error
node in its place, so that there is a tree for every text.

## Main definitions

* `Expr`, `Stmt`, `Declaration`: expressions, statements and functions.
* `Program`: a whole source text.
-/

namespace Betty

mutual

/-- An expression. The position is that of its first token, except that an operator
written between or after its operands has the position of the first operand. -/
inductive Expr where
  | number (position : Position) (value : Float)
  | text (position : Position) (value : String)
  | character (position : Position) (value : Char)
  | boolean (position : Position) (value : Bool)
  | name (position : Position) (name : String)
  | list (position : Position) (items : List Expr)
  | index (position : Position) (collection : Expr) (index : Expr)
  | binary (position : Position) (left : Expr) (op : BinaryOp) (right : Expr)
  | unary (position : Position) (op : UnaryOp) (fixity : Fixity) (operand : Expr)
  | ternary (position : Position) (condition : Expr) (yes : Expr) (no : Expr)
  /-- A plain assignment, or one that combines the old value with the new one. -/
  | assign (position : Position) (target : Expr) (op : Option BinaryOp) (value : Expr)
  | call (position : Position) (callee : Callee) (arguments : List Expr)
  | function (position : Position) (declaration : Declaration)
  | choose (position : Position) (condition : Expr) (yes : Expr) (branches : List Branch)
      (otherwise : Expr)
  | switch (position : Position) (subject : Expr) (arms : List Arm)
  | error (position : Position) (fault : SyntaxFault)

/-- What is called: a name, which may be that of an intrinsic function, or the value
of an expression. -/
inductive Callee where
  | named (name : String)
  | computed (function : Expr)

/-- A further condition of an `if` expression, and its result. -/
structure Branch where
  condition : Expr
  result : Expr

/-- An arm of a `switch` expression. Without a pattern it matches everything. -/
structure Arm where
  pattern : Option Expr
  result : Expr

/-- A statement. -/
inductive Stmt where
  | expr (expr : Expr)
  | block (body : List Stmt)
  | branch (condition : Expr) (yes : Stmt) (clauses : List Clause) (otherwise : Option Stmt)
  | forLoop (start : Option Expr) (condition : Option Expr) (step : Option Expr) (body : Stmt)
  | foreachLoop (element : String) (iterable : Expr) (body : Stmt)
  | whileLoop (condition : Expr) (body : Stmt)
  | doWhileLoop (body : Stmt) (condition : Expr)
  | switch (subject : Expr) (cases : List Case)
  | breakStmt (position : Position)
  | continueStmt (position : Position)
  | returnStmt (value : Option Expr)
  | function (declaration : Declaration)
  | empty
  | error (position : Position) (fault : SyntaxFault)

/-- A further condition of an `if` statement, and its body. -/
structure Clause where
  condition : Expr
  body : Stmt

/-- A case of a `switch` statement. Without a pattern it is the default. -/
structure Case where
  pattern : Option Expr
  body : List Stmt

/-- A function, as written in a program. Source texts are numbered, so that the number
and the position tell any two functions apart. -/
structure Declaration where
  source : Nat
  position : Position
  name : Option String
  parameters : List String
  body : Stmt

end

/-- The position at which errors in an expression are reported. -/
def Expr.position : Expr → Position
  | number p _ | text p _ | character p _ | boolean p _ | name p _ | list p _ | index p _ _
  | binary p _ _ _ | unary p _ _ _ | ternary p _ _ _ | assign p _ _ _ | call p _ _
  | function p _ | choose p _ _ _ _ | switch p _ _ | error p _ => p

/-- Do two declarations stand at the same place of the same source text? -/
def Declaration.same (a b : Declaration) : Bool :=
  a.source == b.source && a.position == b.position

/-- The name of a function in messages. -/
def Declaration.displayName (d : Declaration) : String :=
  d.name.getD "<anonymous>"

/-- A whole program: the global variables with the positions of their names, and the
functions, in the order in which they are written. -/
structure Program where
  globals : List (String × Position)
  functions : List Declaration

/-- The program without any declarations. -/
def Program.empty : Program := ⟨[], []⟩

/-- The function with the given name. The last one wins. -/
def Program.function? (program : Program) (name : String) : Option Declaration :=
  program.functions.reverse.find? fun d => d.name = some name

end Betty
