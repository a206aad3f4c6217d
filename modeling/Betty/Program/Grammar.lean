import Betty.Program.Input

/-!
# The grammar

Recursive descent, with operator precedence for expressions. Every rule takes an
amount of fuel that bounds the depth of the descent; `fuelFor` gives enough for any
row of tokens, since no chain of rules that take no token is longer than that.

A statement that cannot be read becomes an error node, and reading goes on at the
next place where a statement can start. A function whose head cannot be read is
skipped with its body.

## Main definitions

* `expression`: expressions that bind at least as tightly as a given level.
* `statement`, `recovered`: a statement, and a statement or an error node.
* `program`: a whole source text.
-/

namespace Betty.Grammar

open Reading

/-! ### Operators -/

/-- What a sign means after an expression. -/
inductive Joint where
  /-- An assignment, which may combine the old value with the new one. -/
  | assign (op : Option BinaryOp)
  | ternary
  /-- A binary operator and how tightly it binds. -/
  | binary (op : BinaryOp) (level : Nat)
deriving DecidableEq, Repr

/-- The meaning of a sign after an expression. -/
def joint? : Symbol → Option Joint
  | .assign => some (.assign none)
  | .plusAssign => some (.assign (some .add))
  | .minusAssign => some (.assign (some .sub))
  | .starAssign => some (.assign (some .mul))
  | .slashAssign => some (.assign (some .div))
  | .percentAssign => some (.assign (some .rem))
  | .doubleSlashAssign => some (.assign (some .floorDiv))
  | .caretAssign => some (.assign (some .pow))
  | .question => some .ternary
  | .equal => some (.binary .eq 2)
  | .notEqual => some (.binary .ne 2)
  | .less => some (.binary .lt 2)
  | .lessEqual => some (.binary .le 2)
  | .greater => some (.binary .gt 2)
  | .greaterEqual => some (.binary .ge 2)
  | .both => some (.binary .and 3)
  | .either => some (.binary .or 4)
  | .plus => some (.binary .add 5)
  | .minus => some (.binary .sub 5)
  | .star => some (.binary .mul 6)
  | .slash => some (.binary .div 6)
  | .percent => some (.binary .rem 6)
  | .doubleSlash => some (.binary .floorDiv 6)
  | .caret => some (.binary .pow 7)
  | _ => none

/-- The level of an assignment. It is the loosest one. -/
def assignLevel : Nat := 0

/-- The level of the ternary operator. -/
def ternaryLevel : Nat := 1

/-- The level of the right operand of a binary operator: only powers group to the
right. -/
def rightLevel (op : BinaryOp) (level : Nat) : Nat :=
  if op = .pow then level else level + 1

/-- Does a joint at this level end an expression that must bind at least as tightly
as `least`? -/
def Joint.endsAt (least : Nat) : Joint → Bool
  | assign _ => assignLevel < least
  | ternary => ternaryLevel < least
  | binary _ level => level < least

/-- The unary operator that a sign means before its operand. -/
def leadingOp? : Symbol → Option UnaryOp
  | .plus => some .plus
  | .minus => some .neg
  | .bang => some .not
  | .increment => some .increment
  | .decrement => some .decrement
  | _ => none

/-- What is called when a call follows an expression. -/
def calleeOf : Expr → Callee
  | .name _ name => .named name
  | function => .computed function

/-! ### Heads of functions -/

/-- One or more names with commas between them, and the positions of the names. -/
def names (role : NameRole) : Nat → Reading (List (String × Position))
  | 0 => Action.exhausted
  | fuel + 1 => do
    let place ← position
    let name ← expectName role
    if ← atSymbol .comma then
      advance
      let rest ← names role fuel
      return (name, place) :: rest
    else
      return [(name, place)]

/-- The parameters of a function, in parentheses. -/
def parameters (fuel : Nat) : Reading (List String) := do
  if ← atSymbol .leftParen then
    advance
    let found ← if ← atSymbol .rightParen then pure [] else names .parameter fuel
    if ← atSymbol .rightParen then
      advance
      return found.map Prod.fst
    else
      reject .unclosedParameters
  else
    reject .expectedParameters

/-- Does a block end at this lexeme? -/
def endsBlock (lexeme : Lexeme) : Bool :=
  lexeme.isSymbol .rightBrace || lexeme.isEnd

/-- Does the body of a case end at this lexeme? -/
def endsCase (lexeme : Lexeme) : Bool :=
  lexeme.isKeyword .caseWord || lexeme.isKeyword .defaultWord || endsBlock lexeme

/-! ### Expressions and statements -/

mutual

/-- An expression whose operators all bind at least as tightly as `least`. -/
def expression : Nat → Nat → Reading Expr
  | 0, _ => Action.exhausted
  | fuel + 1, least => do
    let first ← unary fuel
    joined fuel least first

/-- The rest of an expression that starts with `left`. -/
def joined : Nat → Nat → Expr → Reading Expr
  | 0, _, _ => Action.exhausted
  | fuel + 1, least, left => do
    match ← lexeme with
    | .symbol sign =>
      match joint? sign with
      | some joint =>
        if joint.endsAt least then
          return left
        else
          advance
          let whole ← operands fuel left joint
          joined fuel least whole
      | none => return left
    | _ => return left

/-- The operands to the right of a joint, joined with the one to its left. -/
def operands : Nat → Expr → Joint → Reading Expr
  | 0, _, _ => Action.exhausted
  | fuel + 1, left, .assign op => do
    let value ← expression fuel assignLevel
    return .assign left.position left op value
  | fuel + 1, left, .ternary => do
    let yes ← expression fuel assignLevel
    expectSymbol .colon
    let no ← expression fuel ternaryLevel
    return .ternary left.position left yes no
  | fuel + 1, left, .binary op level => do
    let right ← expression fuel (rightLevel op level)
    return .binary left.position left op right

/-- An operand with the operators before and after it. -/
def unary : Nat → Reading Expr
  | 0 => Action.exhausted
  | fuel + 1 => do
    let place ← position
    match ← lexeme with
    | .symbol sign =>
      match leadingOp? sign with
      | some op =>
        advance
        let operand ← unary fuel
        return .unary place op .leading operand
      | none =>
        let operand ← primary fuel
        suffixed fuel operand
    | _ =>
      let operand ← primary fuel
      suffixed fuel operand

/-- The calls, indexes, steps and switches that follow an expression. -/
def suffixed : Nat → Expr → Reading Expr
  | 0, _ => Action.exhausted
  | fuel + 1, expr => do
    match ← lexeme with
    | .symbol .leftParen =>
      advance
      let found ← arguments fuel
      suffixed fuel (.call expr.position (calleeOf expr) found)
    | .symbol .leftBracket =>
      advance
      let index ← expression fuel assignLevel
      expectSymbol .rightBracket
      suffixed fuel (.index expr.position expr index)
    | .symbol .increment =>
      advance
      suffixed fuel (.unary expr.position .increment .trailing expr)
    | .symbol .decrement =>
      advance
      suffixed fuel (.unary expr.position .decrement .trailing expr)
    | .keyword .switchWord =>
      advance
      expectSymbol .leftBrace
      let found ← arms fuel false
      expectSymbol .rightBrace
      suffixed fuel (.switch expr.position expr found)
    | _ => return expr

/-- The arguments of a call after its opening parenthesis. -/
def arguments : Nat → Reading (List Expr)
  | 0 => Action.exhausted
  | fuel + 1 => do
    if ← atSymbol .rightParen then
      advance
      return []
    else
      let first ← expression fuel assignLevel
      let rest ← items fuel
      expectSymbol .rightParen
      return first :: rest

/-- Further expressions, each with a comma before it. -/
def items : Nat → Reading (List Expr)
  | 0 => Action.exhausted
  | fuel + 1 => do
    if ← atSymbol .comma then
      advance
      let item ← expression fuel assignLevel
      let rest ← items fuel
      return item :: rest
    else
      return []

/-- The arms of a switch expression. Once an arm without a pattern has been `closed`,
further arms are read but not kept. -/
def arms : Nat → Bool → Reading (List Arm)
  | 0, _ => Action.exhausted
  | fuel + 1, closed => do
    if endsBlock (← lexeme) then
      return []
    else
      if closed then report fun _ => .wildcardNotLast
      let pattern ← armPattern fuel
      expectSymbol .arrow
      let result ← expression fuel assignLevel
      let rest ←
        if ← atSymbol .comma then do
          advance
          arms fuel (closed || pattern.isNone)
        else pure []
      return if closed then rest else ⟨pattern, result⟩ :: rest

/-- The pattern of an arm, or the underscore that stands for none. -/
def armPattern : Nat → Reading (Option Expr)
  | 0 => Action.exhausted
  | fuel + 1 => do
    if ← atKeyword .underscore then
      advance
      return none
    else
      let pattern ← expression fuel assignLevel
      return some pattern

/-- An expression that no operator takes apart. -/
def primary : Nat → Reading Expr
  | 0 => Action.exhausted
  | fuel + 1 => do
    let place ← position
    match ← lexeme with
    | .number value =>
      advance
      return .number place value
    | .text value =>
      advance
      return .text place value
    | .character value =>
      advance
      return .character place value
    | .identifier name =>
      advance
      return .name place name
    | .keyword .trueWord =>
      advance
      return .boolean place true
    | .keyword .falseWord =>
      advance
      return .boolean place false
    | .keyword .funcWord =>
      advance
      let declaration ← function fuel place none
      return .function place declaration
    | .keyword .ifWord =>
      advance
      let condition ← expression fuel assignLevel
      expectKeyword .thenWord
      let yes ← expression fuel assignLevel
      let found ← branches fuel
      expectKeyword .elseWord
      let otherwise ← expression fuel assignLevel
      return .choose place condition yes found otherwise
    | .symbol .leftParen =>
      advance
      let inner ← expression fuel assignLevel
      expectSymbol .rightParen
      return inner
    | .symbol .leftBracket =>
      advance
      listOrRange fuel place
    | .error fault =>
      absorb fault
      return .error place (.lexical fault)
    | _ => reject .unexpected

/-- A list after its opening bracket, or the range from one number to another, which is
a call of the intrinsic `range`. -/
def listOrRange : Nat → Position → Reading Expr
  | 0, _ => Action.exhausted
  | fuel + 1, place => do
    if ← atSymbol .rightBracket then
      advance
      return .list place []
    else
      let first ← expression fuel assignLevel
      if ← atSymbol .dotDot then
        advance
        let last ← expression fuel assignLevel
        expectSymbol .rightBracket
        return .call place (.named "range") [first, last]
      else
        let rest ← items fuel
        expectSymbol .rightBracket
        return .list place (first :: rest)

/-- The further conditions of an `if` expression. -/
def branches : Nat → Reading (List Branch)
  | 0 => Action.exhausted
  | fuel + 1 => do
    if ← atKeyword .elifWord then
      advance
      let condition ← expression fuel assignLevel
      expectKeyword .thenWord
      let result ← expression fuel assignLevel
      let rest ← branches fuel
      return ⟨condition, result⟩ :: rest
    else
      return []

/-- A function whose keyword, and name if it has one, have been taken. -/
def function : Nat → Position → Option String → Reading Declaration
  | 0, _, _ => Action.exhausted
  | fuel + 1, place, name => do
    let found ← parameters fuel
    if ← atSymbol .leftBrace then
      let body ← block fuel
      let source ← Action.gets Input.source
      return ⟨source, place, name, found, .block body⟩
    else
      reject .expectedBody

/-- The statements between a pair of braces. -/
def block : Nat → Reading (List Stmt)
  | 0 => Action.exhausted
  | fuel + 1 => do
    advance
    let body ← statements fuel endsBlock
    expectSymbol .rightBrace
    return body

/-- Statements up to a lexeme that ends them. -/
def statements : Nat → (Lexeme → Bool) → Reading (List Stmt)
  | 0, _ => Action.exhausted
  | fuel + 1, ends => do
    if ends (← lexeme) then
      return []
    else
      let first ← recovered fuel
      let rest ← statements fuel ends
      return first :: rest

/-- A statement, or an error node and the place where reading can go on. -/
def recovered : Nat → Reading Stmt
  | 0 => Action.exhausted
  | fuel + 1 => do
    let place ← position
    match ← lexeme with
    | .error fault =>
      absorb fault
      Action.update Input.synchronize
      return .error place (.lexical fault)
    | _ =>
      let before ← Action.gets Input.taken
      Action.recover (statement fuel) fun error => do
        Action.update fun input => input.report error
        if (← Action.gets Input.taken) = before then advance
        Action.update Input.synchronize
        return .error error.position error.fault

/-- A statement. -/
def statement : Nat → Reading Stmt
  | 0 => Action.exhausted
  | fuel + 1 => do
    let place ← position
    match ← lexeme with
    | .symbol .leftBrace =>
      let body ← block fuel
      return .block body
    | .keyword .ifWord =>
      advance
      let test ← condition fuel
      let yes ← recovered fuel
      let found ← clauses fuel
      if ← atKeyword .elseWord then
        advance
        let otherwise ← recovered fuel
        return .branch test yes found (some otherwise)
      else
        return .branch test yes found none
    | .keyword .forWord =>
      advance
      expectSymbol .leftParen
      let start ← optional fuel .semicolon
      expectSymbol .semicolon
      let test ← optional fuel .semicolon
      expectSymbol .semicolon
      let step ← optional fuel .rightParen
      expectSymbol .rightParen
      let body ← recovered fuel
      return .forLoop start test step body
    | .keyword .foreachWord =>
      advance
      expectSymbol .leftParen
      let element ← expectName .loopVariable
      expectKeyword .inWord
      let iterable ← expression fuel assignLevel
      expectSymbol .rightParen
      let body ← recovered fuel
      return .foreachLoop element iterable body
    | .keyword .whileWord =>
      advance
      let test ← condition fuel
      let body ← recovered fuel
      return .whileLoop test body
    | .keyword .doWord =>
      advance
      let body ← recovered fuel
      expectKeyword .whileWord
      let test ← condition fuel
      expectSymbol .semicolon
      return .doWhileLoop body test
    | .keyword .switchWord =>
      advance
      let subject ← condition fuel
      expectSymbol .leftBrace
      let found ← cases fuel false
      expectSymbol .rightBrace
      return .switch subject found
    | .keyword .breakWord =>
      advance
      expectSymbol .semicolon
      return .breakStmt place
    | .keyword .continueWord =>
      advance
      expectSymbol .semicolon
      return .continueStmt place
    | .keyword .returnWord =>
      advance
      if (← atSymbol .semicolon) || (← atSymbol .rightBrace) then
        expectSymbol .semicolon
        return .returnStmt none
      else
        let value ← expression fuel assignLevel
        expectSymbol .semicolon
        return .returnStmt (some value)
    | .symbol .semicolon =>
      advance
      return .empty
    | .keyword .funcWord =>
      -- A parenthesis right after the keyword starts a function without a name.
      if (← Action.gets Input.following).isSymbol .leftParen then
        exprStatement fuel
      else
        let declaration ← definition fuel
        return .function declaration
    | _ => exprStatement fuel

/-- An expression as a statement. -/
def exprStatement : Nat → Reading Stmt
  | 0 => Action.exhausted
  | fuel + 1 => do
    let expr ← expression fuel assignLevel
    expectSymbol .semicolon
    return .expr expr

/-- A function with a name. -/
def definition : Nat → Reading Declaration
  | 0 => Action.exhausted
  | fuel + 1 => do
    let place ← position
    advance
    let name ← expectName .function
    function fuel place (some name)

/-- An expression in parentheses. -/
def condition : Nat → Reading Expr
  | 0 => Action.exhausted
  | fuel + 1 => do
    expectSymbol .leftParen
    let test ← expression fuel assignLevel
    expectSymbol .rightParen
    return test

/-- An expression, unless the sign that must follow it stands there already. -/
def optional : Nat → Symbol → Reading (Option Expr)
  | 0, _ => Action.exhausted
  | fuel + 1, sign => do
    if ← atSymbol sign then
      return none
    else
      let expr ← expression fuel assignLevel
      return some expr

/-- The further conditions of an `if` statement. -/
def clauses : Nat → Reading (List Clause)
  | 0 => Action.exhausted
  | fuel + 1 => do
    if ← atKeyword .elifWord then
      advance
      let test ← condition fuel
      let body ← recovered fuel
      let rest ← clauses fuel
      return ⟨test, body⟩ :: rest
    else
      return []

/-- The cases of a switch statement. Once the default has `closed` it, further cases are
read but not kept. -/
def cases : Nat → Bool → Reading (List Case)
  | 0, _ => Action.exhausted
  | fuel + 1, closed => do
    match ← lexeme with
    | .keyword .caseWord =>
      if closed then report fun _ => .defaultNotLast
      advance
      let pattern ← expression fuel assignLevel
      let found ← caseBody fuel (some pattern)
      let rest ← cases fuel closed
      return if closed then rest else found :: rest
    | .keyword .defaultWord =>
      if closed then report fun _ => .defaultNotLast
      advance
      let found ← caseBody fuel none
      let rest ← cases fuel true
      return if closed then rest else found :: rest
    | other =>
      if endsBlock other then
        return []
      else
        report .expectedCase
        advance
        cases fuel closed

/-- The rest of a case after its pattern. -/
def caseBody : Nat → Option Expr → Reading Case
  | 0, _ => Action.exhausted
  | fuel + 1, pattern => do
    expectSymbol .colon
    let body ← statements fuel endsCase
    return ⟨pattern, body⟩

end

/-! ### Programs -/

/-- The declarations of global variables at the start of a program. -/
def globals : Nat → Reading (List (String × Position))
  | 0 => Action.exhausted
  | fuel + 1 => do
    if ← atKeyword .globalWord then
      let found ← Action.recover (do
          advance
          let found ← names .globalVariable fuel
          expectSymbol .semicolon
          return found) fun error => do
        Action.update fun input => (input.report error).synchronize
        return []
      let rest ← globals fuel
      return found ++ rest
    else
      return []

/-- The functions of a program, up to the end of the text. -/
def functions : Nat → Reading (List Declaration)
  | 0 => Action.exhausted
  | fuel + 1 => do
    match ← lexeme with
    | .endOfInput => return []
    | .keyword .funcWord =>
      let found ← Action.recover (do
          let declaration ← definition fuel
          return [declaration]) fun error => do
        Action.update fun input => (input.report error).skipBody
        return []
      let rest ← functions fuel
      return found ++ rest
    | .error fault =>
      absorb fault
      functions fuel
    | _ =>
      report .unexpectedAtTop
      advance
      functions fuel

/-- A whole source text. -/
def program (fuel : Nat) : Reading Program := do
  let found ← globals fuel
  let rest ← functions fuel
  return ⟨found, rest⟩

/-- Fuel for reading everything ahead: a rule that takes no token itself leads to one
that does within a few steps. -/
def fuelFor (input : Input) : Nat :=
  16 * (input.ahead.length + 2)

end Betty.Grammar
