import Betty.Program
import Betty.Proofs.Program.Nodes
import Betty.Proofs.Program.Unplaced
import Betty.Proofs.Token.Layout

/-!
# Printing programs

A program is printed as a row of lexemes, in the concrete syntax of the language. Every
compound expression inside another one stands in parentheses. Whether one that stands by
itself in a statement does so, too, is left open by `bare`; only an `if` expression always
does, which would be read as a statement otherwise.

Only programs in the normal form of the parser can be printed. It is a check of single
nodes: functions have names where they are statements and none where they are
expressions, only the steps stand after their operand, and so on.

## Main definitions

* `Expr.lexemes`, `Stmt.lexemes`, `Program.lexemes`: the printed form.
* `normalNodes`, `Program.Normal`: the normal form.
-/

namespace Betty

/-! ### Signs -/

/-- The sign of a binary operator. -/
def BinaryOp.sign : BinaryOp → Symbol
  | .add => .plus
  | .sub => .minus
  | .mul => .star
  | .div => .slash
  | .floorDiv => .doubleSlash
  | .rem => .percent
  | .pow => .caret
  | .eq => .equal
  | .ne => .notEqual
  | .lt => .less
  | .le => .lessEqual
  | .gt => .greater
  | .ge => .greaterEqual
  | .and => .both
  | .or => .either

/-- The sign of a unary operator. -/
def UnaryOp.sign : UnaryOp → Symbol
  | .plus => .plus
  | .neg => .minus
  | .not => .bang
  | .increment => .increment
  | .decrement => .decrement

/-- The sign of an assignment that combines the old value with the new one, if there is
one. -/
def BinaryOp.assignSign? : BinaryOp → Option Symbol
  | .add => some .plusAssign
  | .sub => some .minusAssign
  | .mul => some .starAssign
  | .div => some .slashAssign
  | .floorDiv => some .doubleSlashAssign
  | .rem => some .percentAssign
  | .pow => some .caretAssign
  | _ => none

/-- The sign of an assignment. -/
def assignSign (op : Option BinaryOp) : Symbol :=
  (op.bind BinaryOp.assignSign?).getD .assign

/-! ### Expressions and statements -/

/-- Is the expression a single lexeme? -/
def Expr.isAtom : Expr → Bool
  | .number _ _ | .text _ _ | .character _ _ | .boolean _ _ | .name _ _ => true
  | _ => false

/-- Is this an `if` expression? -/
def Expr.isChoice : Expr → Bool
  | .choose _ _ _ _ _ => true
  | _ => false

/-- The printed form of an expression inside another one, from the form without
parentheses. -/
def Expr.inside (expr : Expr) (lexemes : List Lexeme) : List Lexeme :=
  if expr.isAtom then lexemes
  else .symbol .leftParen :: (lexemes ++ [.symbol .rightParen])

/-- The printed form of an expression that stands by itself, from the form without
parentheses. -/
def Expr.alone (bare : Bool) (expr : Expr) (lexemes : List Lexeme) : List Lexeme :=
  if bare && !expr.isChoice then lexemes else expr.inside lexemes

/-- Names with commas between them. -/
def namesLexemes : List String → List Lexeme
  | [] => []
  | [name] => [.identifier name]
  | name :: rest => .identifier name :: .symbol .comma :: namesLexemes rest

section

variable (bare : Bool)

mutual

/-- The printed form of an expression without parentheses around it. -/
def Expr.lexemes : Expr → List Lexeme
  | .number _ value => [.number value]
  | .text _ value => [.text value]
  | .character _ value => [.character value]
  | .boolean _ value => [.keyword (if value then .trueWord else .falseWord)]
  | .name _ name => [.identifier name]
  | .list _ items =>
    .symbol .leftBracket :: (Expr.lexemesRow items ++ [.symbol .rightBracket])
  | .index _ collection index =>
    collection.inside collection.lexemes ++
      .symbol .leftBracket :: (index.inside index.lexemes ++ [.symbol .rightBracket])
  | .binary _ left op right =>
    left.inside left.lexemes ++ .symbol op.sign :: right.inside right.lexemes
  | .unary _ op .leading operand => .symbol op.sign :: operand.inside operand.lexemes
  | .unary _ op .trailing operand => operand.inside operand.lexemes ++ [.symbol op.sign]
  | .ternary _ condition yes no =>
    condition.inside condition.lexemes ++
      .symbol .question :: (yes.inside yes.lexemes ++ .symbol .colon :: no.inside no.lexemes)
  | .assign _ target op value =>
    target.inside target.lexemes ++ .symbol (assignSign op) :: value.inside value.lexemes
  | .call _ callee arguments =>
    callee.lexemes ++
      .symbol .leftParen :: (Expr.lexemesRow arguments ++ [.symbol .rightParen])
  | .function _ declaration => .keyword .funcWord :: declaration.lexemes
  | .choose _ condition yes branches otherwise =>
    .keyword .ifWord :: (condition.inside condition.lexemes ++
      .keyword .thenWord :: (yes.inside yes.lexemes ++ (Branch.lexemesAll branches ++
        .keyword .elseWord :: otherwise.inside otherwise.lexemes)))
  | .switch _ subject arms =>
    subject.inside subject.lexemes ++ .keyword .switchWord :: .symbol .leftBrace ::
      (Arm.lexemesRow arms ++ [.symbol .rightBrace])
  | .error _ _ => []

/-- The printed form of what is called. -/
def Callee.lexemes : Callee → List Lexeme
  | .named name => [.identifier name]
  | .computed function => function.inside function.lexemes

/-- Expressions with commas between them. -/
def Expr.lexemesRow : List Expr → List Lexeme
  | [] => []
  | expr :: rest => expr.inside expr.lexemes ++ Expr.lexemesMore rest

/-- Further expressions, each with a comma before it. -/
def Expr.lexemesMore : List Expr → List Lexeme
  | [] => []
  | expr :: rest => .symbol .comma :: (expr.inside expr.lexemes ++ Expr.lexemesMore rest)

/-- The further conditions of an `if` expression. -/
def Branch.lexemesAll : List Branch → List Lexeme
  | [] => []
  | ⟨condition, result⟩ :: rest =>
    .keyword .elifWord :: (condition.inside condition.lexemes ++
      .keyword .thenWord :: (result.inside result.lexemes ++ Branch.lexemesAll rest))

/-- Arms with commas between them. -/
def Arm.lexemesRow : List Arm → List Lexeme
  | [] => []
  | ⟨pattern, result⟩ :: rest =>
    Expr.lexemesPattern pattern ++
      .symbol .arrow :: (result.inside result.lexemes ++ Arm.lexemesMore rest)

/-- Further arms, each with a comma before it. -/
def Arm.lexemesMore : List Arm → List Lexeme
  | [] => []
  | ⟨pattern, result⟩ :: rest =>
    .symbol .comma :: (Expr.lexemesPattern pattern ++
      .symbol .arrow :: (result.inside result.lexemes ++ Arm.lexemesMore rest))

/-- The pattern of an arm. -/
def Expr.lexemesPattern : Option Expr → List Lexeme
  | none => [.keyword .underscore]
  | some pattern => pattern.inside pattern.lexemes

/-- An expression that stands by itself, if there is one. -/
def Expr.lexemesOption : Option Expr → List Lexeme
  | none => []
  | some expr => expr.alone bare expr.lexemes

/-- The printed form of a statement. -/
def Stmt.lexemes : Stmt → List Lexeme
  | .expr expr => expr.alone bare expr.lexemes ++ [.symbol .semicolon]
  | .block body => .symbol .leftBrace :: (Stmt.lexemesAll body ++ [.symbol .rightBrace])
  | .branch condition yes clauses otherwise =>
    .keyword .ifWord :: .symbol .leftParen :: (condition.alone bare condition.lexemes ++
      .symbol .rightParen :: (yes.lexemes ++ (Clause.lexemesAll clauses ++
        Stmt.lexemesElse otherwise)))
  | .forLoop start condition step body =>
    .keyword .forWord :: .symbol .leftParen :: (Expr.lexemesOption start ++
      .symbol .semicolon :: (Expr.lexemesOption condition ++
        .symbol .semicolon :: (Expr.lexemesOption step ++
          .symbol .rightParen :: body.lexemes)))
  | .foreachLoop element iterable body =>
    .keyword .foreachWord :: .symbol .leftParen :: .identifier element :: .keyword .inWord ::
      (iterable.alone bare iterable.lexemes ++ .symbol .rightParen :: body.lexemes)
  | .whileLoop condition body =>
    .keyword .whileWord :: .symbol .leftParen :: (condition.alone bare condition.lexemes ++
      .symbol .rightParen :: body.lexemes)
  | .doWhileLoop body condition =>
    .keyword .doWord :: (body.lexemes ++ .keyword .whileWord :: .symbol .leftParen ::
      (condition.alone bare condition.lexemes ++ [.symbol .rightParen, .symbol .semicolon]))
  | .switch subject cases =>
    .keyword .switchWord :: .symbol .leftParen :: (subject.alone bare subject.lexemes ++
      .symbol .rightParen :: .symbol .leftBrace ::
        (Case.lexemesAll cases ++ [.symbol .rightBrace]))
  | .breakStmt _ => [.keyword .breakWord, .symbol .semicolon]
  | .continueStmt _ => [.keyword .continueWord, .symbol .semicolon]
  | .returnStmt value =>
    .keyword .returnWord :: (Expr.lexemesOption value ++ [.symbol .semicolon])
  | .function declaration => .keyword .funcWord :: declaration.lexemes
  | .empty => [.symbol .semicolon]
  | .error _ _ => []

/-- The printed forms of statements, one after another. -/
def Stmt.lexemesAll : List Stmt → List Lexeme
  | [] => []
  | statement :: rest => statement.lexemes ++ Stmt.lexemesAll rest

/-- The last alternative of an `if` statement. -/
def Stmt.lexemesElse : Option Stmt → List Lexeme
  | none => []
  | some statement => .keyword .elseWord :: statement.lexemes

/-- The further conditions of an `if` statement. -/
def Clause.lexemesAll : List Clause → List Lexeme
  | [] => []
  | ⟨condition, body⟩ :: rest =>
    .keyword .elifWord :: .symbol .leftParen :: (condition.alone bare condition.lexemes ++
      .symbol .rightParen :: (body.lexemes ++ Clause.lexemesAll rest))

/-- The cases of a `switch` statement. -/
def Case.lexemesAll : List Case → List Lexeme
  | [] => []
  | ⟨pattern, body⟩ :: rest =>
    Expr.lexemesCase pattern ++
      .symbol .colon :: (Stmt.lexemesAll body ++ Case.lexemesAll rest)

/-- The head of a case. -/
def Expr.lexemesCase : Option Expr → List Lexeme
  | none => [.keyword .defaultWord]
  | some pattern => .keyword .caseWord :: pattern.alone bare pattern.lexemes

/-- The printed form of a function after its keyword. -/
def Declaration.lexemes : Declaration → List Lexeme
  | ⟨_, _, name, parameters, body⟩ =>
    (name.map Lexeme.identifier).toList ++
      .symbol .leftParen :: (namesLexemes parameters ++ .symbol .rightParen :: body.lexemes)

end

/-- The printed form of an expression inside another one. -/
def Expr.operand (expr : Expr) : List Lexeme :=
  expr.inside (expr.lexemes bare)

/-- The printed form of an expression that stands by itself. -/
def Expr.whole (expr : Expr) : List Lexeme :=
  expr.alone bare (expr.lexemes bare)

/-- Declarations of global variables, one for each. -/
def globalsLexemes : List (String × Position) → List Lexeme
  | [] => []
  | (name, _) :: rest =>
    .keyword .globalWord :: .identifier name :: .symbol .semicolon :: globalsLexemes rest

/-- Definitions of functions. -/
def functionsLexemes : List Declaration → List Lexeme
  | [] => []
  | declaration :: rest =>
    .keyword .funcWord :: (declaration.lexemes bare ++ functionsLexemes rest)

/-- The printed form of a program. -/
def Program.lexemes (program : Program) : List Lexeme :=
  globalsLexemes program.globals ++ functionsLexemes bare program.functions

/-- The printed form of a program as a text. `numeral` spells numbers. -/
def Program.text (numeral : Float → List Char) (program : Program) : String :=
  String.ofList (layout numeral (program.lexemes bare))

end

/-! ### Normal form -/

/-- Is a place without a pattern the last one? -/
def wildcardLast : List (Option Expr) → Bool
  | [] => true
  | none :: rest => rest.isEmpty
  | some _ :: rest => wildcardLast rest

mutual

/-- Does the statement end in an `if` statement without `else`? -/
def Stmt.endsOpen : Stmt → Bool
  | .branch _ _ _ otherwise => Stmt.elseEndsOpen otherwise
  | .forLoop _ _ _ body => body.endsOpen
  | .foreachLoop _ _ body => body.endsOpen
  | .whileLoop _ body => body.endsOpen
  | _ => false

/-- Does an `if` statement with this last alternative end in one without `else`? -/
def Stmt.elseEndsOpen : Option Stmt → Bool
  | none => true
  | some otherwise => otherwise.endsOpen

end

/-- Do the bodies of an `if` statement, each of which another one or the `else` follows
except for the last, not end in an `if` statement without `else`? -/
def bodiesClosed (hasElse : Bool) : List Stmt → Bool
  | [] => true
  | body :: rest => (!body.endsOpen || (rest.isEmpty && !hasElse)) && bodiesClosed hasElse rest

/-- The parameters of a function are names, and its body is a block. -/
structure Declaration.HasHead (declaration : Declaration) : Prop where
  parameters : ∀ name ∈ declaration.parameters, isName name
  body : ∃ statements, declaration.body = .block statements

/-- The function has a name. -/
def Declaration.IsNamed (declaration : Declaration) : Prop :=
  ∃ name, declaration.name = some name ∧ isName name

/-- The check that a node is one that the parser builds. `numeral` spells numbers. -/
def normalNodes (numeral : Float → List Char) : NodeCheck where
  expr
    | .number _ value => isNumeral (numeral value) ∧ Number.ofChars? (numeral value) = some value
    | .name _ name => isName name
    | .unary _ op .trailing _ => op = .increment ∨ op = .decrement
    | .assign _ _ (some op) _ => op.assignSign?.isSome
    | .call _ (.named name) _ => isName name
    | .call _ (.computed function) _ => ¬ function.isName
    | .function _ declaration => declaration.name = none ∧ declaration.HasHead
    | .switch _ _ arms => wildcardLast (arms.map Arm.pattern)
    | .error _ _ => False
    | _ => True
  stmt
    | .branch _ yes clauses otherwise =>
      bodiesClosed otherwise.isSome (yes :: clauses.map Clause.body)
    | .foreachLoop element _ _ => isName element
    | .switch _ cases => wildcardLast (cases.map Case.pattern)
    | .function declaration => declaration.IsNamed ∧ declaration.HasHead
    | .error _ _ => False
    | _ => True

/-- The program is one that the parser builds. -/
structure Program.Normal (numeral : Float → List Char) (program : Program) : Prop where
  globals : ∀ declared ∈ program.globals, isName declared.1
  functions : ∀ declaration ∈ program.functions,
    declaration.IsNamed ∧ declaration.HasHead ∧ declaration.Everywhere (normalNodes numeral)

end Betty
