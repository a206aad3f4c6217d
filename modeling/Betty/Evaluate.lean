import Betty.Intrinsic.Apply

/-!
# Evaluation

Expressions have values and statements have effects; both work on the machine. Every
function takes an amount of fuel that bounds the depth of the recursion, and a loop
uses up some with each round, so that evaluation is total.

An error is reported at the innermost expression that it occurred in.

## Main definitions

* `Plan.evaluate`, `Plan.execute` and others: the plans of expressions and statements.
* `evaluate`: the value of an expression.
* `execute`: the effect of a statement.
* `callFunction`: a call of a function with evaluated arguments.
-/

namespace Betty

/-! ### Names -/

/-- The value of a name: that of a variable, or the function of the program with that
name. -/
def variableValue (machine : Machine) (name : String) : Except Fault Value :=
  match machine.environment.get? name with
  | some value => .ok value
  | none =>
    match machine.functions.get? name with
    | some declaration => .ok (.function (.ofProgram declaration))
    | none => .error (.undefinedVariable name)

/-- The function that a name refers to in a call: a function in the active chain, then a
function of the program, then a global variable that holds a function. -/
def resolveFunction (machine : Machine) (name : String) : Except Fault Closure :=
  match machine.environment.local? name with
  | some (.function closure) => .ok closure
  | _ =>
    match machine.functions.get? name with
    | some declaration => .ok (.ofProgram declaration)
    | none =>
      match machine.environment.get? name with
      | some (.function closure) => .ok closure
      | some other => .error (.type (.notAFunction name other.kind))
      | none => .error (.undefinedFunction name)

/-! ### Elements -/

/-- The element of a list or text at an index. -/
def elementAt (heap : Heap) (collection index : Value) : Except Fault Value :=
  match collection with
  | .list ref =>
    match indexIn index (heap.items ref).size with
    | .ok position => .ok ((heap.items ref).getD position .none)
    | .error fault => .error fault
  | .text value =>
    match indexIn index value.text.length with
    | .ok position => .ok (.character (value.text.toList.getD position default))
    | .error fault => .error fault
  | other => .error (.type (.indexing other.kind))

/-- The place of a list element: the list and the position in it. `refusal` is the fault
of a collection that has no elements that can be changed. -/
def elementPlace (heap : Heap) (refusal : Kind → TypeFault) (collection index : Value) :
    Except Fault (ListRef × Nat) :=
  match collection with
  | .list ref =>
    match indexIn index (heap.items ref).size with
    | .ok position => .ok (ref, position)
    | .error fault => .error fault
  | other => .error (.type (refusal other.kind))

/-- The value of a list element. -/
def elementValue (machine : Machine) (ref : ListRef) (position : Nat) : Value :=
  (machine.heap.items ref).getD position .none

/-- What is added to a list along with a value: the elements of another list, or the value
itself. -/
def addedItems (heap : Heap) : Value → Array Value
  | .list other => heap.items other
  | single => #[single]

namespace Plan

/-! ### Parts of expressions -/

/-- The old value of a variable or element combined with another value. Adding to a list
changes that list. -/
def combine (op : BinaryOp) (current value : Value) : Plan Value :=
  match current, op with
  | .list ref, .add => do
    let extra ← look fun machine => addedItems machine.heap value
    extendList ref extra
    return current
  | _, _ => holding [current] (onHeap [] (applyBinary op current value))

/-- The value to be assigned: the new one, or the old one combined with it. -/
def assignedValue (op : Option BinaryOp) (current : Plan Value) (value : Value) : Plan Value :=
  match op with
  | none => pure value
  | some op => holding [value] do
    let old ← current
    combine op old value

/-- A unary operator. A plus sign hands its operand on. -/
def unary (op : UnaryOp) (operand : Value) : Plan Value :=
  match op with
  | .plus => pure operand
  | _ => holding [operand] (perform (Eval.ofTyped (applyUnary op operand)))

/-- A jump: it sets the flow if it has a goal, and is an error otherwise. -/
def jump (hasGoal : Control → Bool) (flow : Flow) (stray : RuntimeError) : Plan Unit := do
  if ← look fun machine => hasGoal machine.control then
    updateControl fun control => control.setFlow flow
  else
    fail stray

/-! ### Expressions and statements -/

mutual

/-- The value of an expression. -/
def evaluate : Nat → Expr → Plan Value
  | 0, _ => exhausted
  | fuel + 1, expr => within (.expr expr) <| located expr.position <|
    match expr with
    | .number _ value => pure (.number value)
    | .text _ value => onHeap [] (HeapAction.newText value)
    | .character _ value => pure (.character value)
    | .boolean _ value => pure (.boolean value)
    | .name _ name => read name fun machine => variableValue machine name
    | .list _ items => do
      let values ← evaluateAll fuel items
      holding values (onHeap [] (HeapAction.newList values.toArray))
    | .index _ collection index => do
      let collection ← evaluate fuel collection
      let index ← owning [collection] (evaluate fuel index)
      holding [index, collection] <|
        fetch (fun machine => elementAt machine.heap collection index) fun element => [element]
    | .binary _ left op right => do
      let left ← evaluate fuel left
      let right ← owning [left] (evaluate fuel right)
      holding [right, left] (onHeap [] (applyBinary op left right))
    | .unary _ .increment fixity operand => step fuel true fixity operand
    | .unary _ .decrement fixity operand => step fuel false fixity operand
    | .unary _ op _ operand => do
      let operand ← evaluate fuel operand
      unary op operand
    | .ternary _ condition yes no => do
      if ← test fuel condition then evaluate fuel yes else evaluate fuel no
    | .assign _ target op value => assignTo fuel target op value
    | .call _ callee arguments => call fuel callee arguments
    | .function _ declaration => close declaration
    | .choose _ condition yes branches otherwise => do
      if ← test fuel condition then evaluate fuel yes else choose fuel branches otherwise
    | .switch _ subject arms => do
      let value ← evaluate fuel subject
      holding [value] do
        match ← equalArm fuel value arms with
        | some result => return result
        | none =>
          match arms.find? fun arm => arm.pattern.isNone with
          | some fallback => evaluate fuel fallback.result
          | none =>
            let shown ← look fun machine => machine.heap.display value
            fail ⟨.noMatchingArm shown, subject.position⟩
    | .error position found => fail ⟨.malformed found, position⟩

/-- The values of expressions, from left to right. -/
def evaluateAll : Nat → List Expr → Plan (List Value)
  | 0, _ => exhausted
  | _ + 1, [] => pure []
  | fuel + 1, expr :: rest => do
    let value ← evaluate fuel expr
    let values ← owning [value] (evaluateAll fuel rest)
    return value :: values

/-- The value of a condition, which must be a truth value. -/
def test : Nat → Expr → Plan Bool
  | 0, _ => exhausted
  | fuel + 1, expr => do
    let value ← evaluate fuel expr
    match value.boolean? with
    | some answer => return answer
    | none => holding [value] (located expr.position (fault (.type (.condition value.kind))))

/-- The result of the first branch whose condition holds. -/
def choose : Nat → List Branch → Expr → Plan Value
  | 0, _, _ => exhausted
  | fuel + 1, [], otherwise => evaluate fuel otherwise
  | fuel + 1, branch :: rest, otherwise => do
    if ← test fuel branch.condition then evaluate fuel branch.result
    else choose fuel rest otherwise

/-- The result of the first arm whose pattern is equal to a value. The patterns after that
one are not evaluated. -/
def equalArm : Nat → Value → List Arm → Plan (Option Value)
  | 0, _, _ => exhausted
  | _ + 1, _, [] => pure none
  | fuel + 1, subject, arm :: rest =>
    match arm.pattern with
    | none => equalArm fuel subject rest
    | some pattern => do
      let candidate ← evaluate fuel pattern
      if ← look fun machine => equalValues machine.heap subject candidate then
        let result ← holding [candidate] (evaluate fuel arm.result)
        return some result
      else
        forget [candidate]
        equalArm fuel subject rest

/-- The first case whose pattern is equal to a value. The cases are counted from `position`,
and the patterns after the equal one are not evaluated. -/
def equalCase : Nat → Value → List Case → Nat → Plan (Option Nat)
  | 0, _, _, _ => exhausted
  | _ + 1, _, [], _ => pure none
  | fuel + 1, subject, first :: rest, position =>
    match first.pattern with
    | none => equalCase fuel subject rest (position + 1)
    | some pattern => do
      let candidate ← evaluate fuel pattern
      let equal ← look fun machine => equalValues machine.heap subject candidate
      forget [candidate]
      if equal then return some position else equalCase fuel subject rest (position + 1)

/-- An assignment. The value is evaluated before the target. -/
def assignTo : Nat → Expr → Option BinaryOp → Expr → Plan Value
  | 0, _, _, _ => exhausted
  | fuel + 1, target, op, value => do
    let value ← evaluate fuel value
    match target with
    | .name place name =>
      let current := located place (read name fun machine => machine.environment.lookup name)
      let updated ← assignedValue op current value
      assign name updated
      return updated
    | .index place collection index =>
      let collection ← owning [value] (evaluate fuel collection)
      let index ← owning [collection, value] (evaluate fuel index)
      holding [index, collection] do
        let (ref, position) ← owning [value] <| located place <| perform <|
          Eval.query fun machine =>
            elementPlace machine.heap .elementAssignment collection index
        let current := fetch (fun machine => .ok (elementValue machine ref position))
          fun element => [element]
        let updated ← assignedValue op current value
        setElement ref position updated
        return updated
    | other => holding [value] (fail ⟨.invalidTarget, other.position⟩)

/-- A step up or down of a variable or list element. A leading operator yields the new
value, a trailing one the old value. -/
def step : Nat → Bool → Fixity → Expr → Plan Value
  | 0, _, _, _ => exhausted
  | fuel + 1, up, fixity, operand => do
    match operand with
    | .name place name =>
      let old ← located place (read name fun machine => machine.environment.lookup name)
      let new ← owning [old] (perform (Eval.ofTyped (stepValue up old)))
      assign name new
      return if fixity = .leading then new else old
    | .index _ collection index =>
      let collection ← evaluate fuel collection
      let index ← owning [collection] (evaluate fuel index)
      holding [index, collection] do
        let (ref, position) ← perform <| Eval.query fun machine =>
          elementPlace machine.heap .elementStep collection index
        let old ← fetch (fun machine => .ok (elementValue machine ref position))
          fun element => [element]
        let new ← owning [old] (perform (Eval.ofTyped (stepValue up old)))
        setElement ref position new
        return if fixity = .leading then new else old
    | other => fail ⟨.invalidTarget, other.position⟩

/-- A call. What is called is found before the arguments are evaluated. -/
def call : Nat → Callee → List Expr → Plan Value
  | 0, _, _ => exhausted
  | fuel + 1, .named name, arguments => do
    match Intrinsic.ofName? name with
    | some intrinsic =>
      perform (Eval.ofExcept (intrinsic.checkArity arguments.length))
      let values ← evaluateAll fuel arguments
      holding values (intrinsic.plan fuel values)
    | none =>
      let closure ← fetch (fun machine => resolveFunction machine name)
        fun closure => [.function closure]
      holding [.function closure] do
        let values ← evaluateAll fuel arguments
        callFunction fuel closure values
  | fuel + 1, .computed function, arguments => do
    match ← evaluate fuel function with
    | .function closure => holding [.function closure] do
      let values ← evaluateAll fuel arguments
      callFunction fuel closure values
    | other => holding [other] (fault (.type (.calling other.kind)))

/-- A call of a function with evaluated arguments. -/
def callFunction : Nat → Closure → List Value → Plan Value
  | 0, _, _ => exhausted
  | fuel + 1, closure, arguments =>
    let declaration := closure.declaration
    if arguments.length = declaration.parameters.length then
      inCall closure arguments do
        execute fuel declaration.body
        look fun machine => machine.control.result
    else
      holding arguments <| fault <| .arity declaration.displayName
        (.exactly declaration.parameters.length) arguments.length

/-- The effect of a statement. -/
def execute : Nat → Stmt → Plan Unit
  | 0, _ => exhausted
  | fuel + 1, statement => within (.statement statement) <|
    match statement with
    | .expr expr => do
      let value ← evaluate fuel expr
      forget [value]
    | .block body => inBlock (executeAll fuel body)
    | .branch condition yes clauses otherwise => do
      if ← test fuel condition then execute fuel yes
      else executeClauses fuel clauses otherwise
    | .whileLoop condition body => inLoop (whileRounds fuel condition body)
    | .doWhileLoop body condition => inLoop (doRounds fuel body condition)
    | .forLoop start condition step body => inLoop do
      evaluateOptional fuel start
      forRounds fuel condition step body
    | .foreachLoop element iterable body => do
      let collection ← evaluate fuel iterable
      holding [collection] do
        let items ← fetch (fun machine => .ok (machine.heap.elements? collection))
          fun items => items.getD []
        match items with
        | some items => inLoop (foreachRounds fuel element items body)
        | none => located iterable.position (fault (.type (.iteration collection.kind)))
    | .switch subject cases => do
      let value ← evaluate fuel subject
      holding [value] do
        let start ← equalCase fuel value cases 0
        match start <|> cases.findIdx? fun found => found.pattern.isNone with
        | some position =>
          inSwitch (executeCases fuel (cases.drop position))
          updateControl Control.endSwitch
        | none => pure ()
    | .breakStmt position =>
      jump Control.canBreak .breaking ⟨.strayJump .breakWord, position⟩
    | .continueStmt position =>
      jump Control.canContinue .continuing ⟨.strayJump .continueWord, position⟩
    | .returnStmt none => updateControl fun control => control.setReturn .none
    | .returnStmt (some expr) => do
      let value ← evaluate fuel expr
      updateControl fun control => control.setReturn value
    | .function declaration => do
      let name := declaration.displayName
      if Intrinsic.isReserved name then
        fail ⟨.reservedName name, declaration.position⟩
      else
        -- The function keeps the frame that it is bound in, so it can call itself.
        let function ← close declaration
        holding [function] (declare name function)
    | .empty => pure ()
    | .error position found => fail ⟨.malformed found, position⟩

/-- The effect of statements in order, as long as the flow is normal. -/
def executeAll : Nat → List Stmt → Plan Unit
  | 0, _ => exhausted
  | _ + 1, [] => pure ()
  | fuel + 1, statement :: rest => do
    execute fuel statement
    if ← look fun machine => machine.control.isNormal then executeAll fuel rest
    else pure ()

/-- The effect of the first clause whose condition holds. -/
def executeClauses : Nat → List Clause → Option Stmt → Plan Unit
  | 0, _, _ => exhausted
  | _ + 1, [], none => pure ()
  | fuel + 1, [], some otherwise => execute fuel otherwise
  | fuel + 1, clause :: rest, otherwise => do
    if ← test fuel clause.condition then execute fuel clause.body
    else executeClauses fuel rest otherwise

/-- The effect of cases, one falling through to the next as long as the flow is
normal. -/
def executeCases : Nat → List Case → Plan Unit
  | 0, _ => exhausted
  | _ + 1, [] => pure ()
  | fuel + 1, first :: rest => do
    executeAll fuel first.body
    if ← look fun machine => machine.control.isNormal then executeCases fuel rest
    else pure ()

/-- The rounds of a loop whose condition comes first. -/
def whileRounds : Nat → Expr → Stmt → Plan Unit
  | 0, _, _ => exhausted
  | fuel + 1, condition, body => do
    if ← test fuel condition then
      execute fuel body
      if ← perform Eval.endIteration then pure () else whileRounds fuel condition body
    else pure ()

/-- The rounds of a loop whose condition comes last. -/
def doRounds : Nat → Stmt → Expr → Plan Unit
  | 0, _, _ => exhausted
  | fuel + 1, body, condition => do
    execute fuel body
    if ← perform Eval.endIteration then pure ()
    else if ← test fuel condition then doRounds fuel body condition
    else pure ()

/-- The rounds of a counting loop. -/
def forRounds : Nat → Option Expr → Option Expr → Stmt → Plan Unit
  | 0, _, _, _ => exhausted
  | fuel + 1, condition, step, body => do
    if ← testOptional fuel condition then
      execute fuel body
      if ← perform Eval.endIteration then pure ()
      else
        evaluateOptional fuel step
        forRounds fuel condition step body
    else pure ()

/-- A condition that holds if it is missing. -/
def testOptional : Nat → Option Expr → Plan Bool
  | 0, _ => exhausted
  | _ + 1, none => pure true
  | fuel + 1, some condition => test fuel condition

/-- The effect of an expression that may be missing. -/
def evaluateOptional : Nat → Option Expr → Plan Unit
  | 0, _ => exhausted
  | _ + 1, none => pure ()
  | fuel + 1, some expr => do
    let value ← evaluate fuel expr
    forget [value]

/-- The rounds of a loop over the elements of a collection. -/
def foreachRounds : Nat → String → List Value → Stmt → Plan Unit
  | 0, _, _, _ => exhausted
  | _ + 1, _, [], _ => pure ()
  | fuel + 1, element, item :: rest, body => do
    holding [item] (assign element item)
    owning rest (execute fuel body)
    if ← perform Eval.endIteration then forget rest else foreachRounds fuel element rest body

end

end Plan

/-- The value of an expression. -/
def evaluate (fuel : Nat) (expr : Expr) : Eval Value :=
  (Plan.evaluate fuel expr).run

/-- The effect of a statement. -/
def execute (fuel : Nat) (statement : Stmt) : Eval Unit :=
  (Plan.execute fuel statement).run

/-- A call of a function with evaluated arguments. -/
def callFunction (fuel : Nat) (closure : Closure) (arguments : List Value) : Eval Value :=
  (Plan.callFunction fuel closure arguments).run

end Betty
