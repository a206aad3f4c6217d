import Betty.Heap

/-!
# What the operators compute

Arithmetic takes numbers and characters, which count as their code points. Addition
also joins texts and lists. Both operands of a logical operator are always evaluated
before it is applied.

## Main definitions

* `applyBinary`, `applyUnary`: the operators.
* `equalValues`: the equality that `==`, `switch` and the search in lists share.
* `indexIn`: a value as an index into a sequence of known length.
-/

namespace Betty

open HeapAction

/-- The result of an arithmetic operator on two numbers; `none` for other operators. -/
def arithmeticResult? (op : BinaryOp) (a b : Float) : Option Float :=
  match op with
  | .add => some (a + b)
  | .sub => some (a - b)
  | .mul => some (a * b)
  | .div => some (a / b)
  | .floorDiv => some (a / b).floor
  | .rem => some (Number.remainder a b)
  | .pow => some (a.pow b)
  | _ => none

/-- An arithmetic operator on two values. -/
def arithmetic (op : BinaryOp) (left right : Value) : Except TypeFault Value :=
  match left.number?, right.number? with
  | some a, some b =>
    match arithmeticResult? op a b with
    | some result => .ok (.number result)
    | none => .error (.notNumeric op left.kind right.kind)
  | _, _ => .error (.notNumeric op left.kind right.kind)

/-- A logical operator on two values. -/
def logical (op : BinaryOp) (left right : Value) : Except TypeFault Bool :=
  match left.boolean?, right.boolean? with
  | some a, some b => .ok (if op = .and then a && b else a || b)
  | _, _ => .error (.notBoolean op left.kind right.kind)

/-- A comparison of two numbers, which all fail on a value that is not a number, except
for inequality. -/
def compareNumbers (op : BinaryOp) (a b : Float) : Bool :=
  match op with
  | .eq => a == b
  | .ne => a != b
  | .lt => a < b
  | .le => a ≤ b
  | .gt => b < a
  | _ => b ≤ a

/-- A comparison of two texts, by the code points of their characters; `none` for
operators that do not order. -/
def compareTexts? (op : BinaryOp) (a b : String) : Option Bool :=
  match op with
  | .lt => some (a < b)
  | .le => some (a < b || a == b)
  | .gt => some (b < a)
  | .ge => some (b < a || a == b)
  | _ => none

/-- A comparison of two values. Numbers and characters compare as numbers, texts as
texts, and everything else can only be equal or not. -/
def compareValues (heap : Heap) (op : BinaryOp) (left right : Value) : Except TypeFault Bool :=
  match left, right with
  | .number a, .number b => .ok (compareNumbers op a b)
  | .number a, .character b => .ok (compareNumbers op a b.val.toFloat)
  | .character a, .number b => .ok (compareNumbers op a.val.toFloat b)
  | .character a, .character b => .ok (compareNumbers op a.val.toFloat b.val.toFloat)
  | _, _ =>
    match op with
    | .eq => .ok (heap.same left right)
    | .ne => .ok (!heap.same left right)
    | _ =>
      match left, right with
      | .text a, .text b =>
        match compareTexts? op a.text b.text with
        | some answer => .ok answer
        | none => .error (.notOrdered op left.kind right.kind)
      | _, _ => .error (.notOrdered op left.kind right.kind)

/-- Are two values equal in the language? -/
def equalValues (heap : Heap) (left right : Value) : Bool :=
  match compareValues heap .eq left right with
  | .ok answer => answer
  | .error _ => false

/-- Turns a result that does not touch the heap into a computation. -/
def HeapAction.ofResult {α β : Type} (result : Except TypeFault α) (make : α → β) :
    HeapAction β :=
  match result with
  | .ok value => pure (make value)
  | .error fault => typeFault fault

/-- Addition: it joins texts, also with other values, it joins lists and adds single
elements to them at either end, and otherwise it adds numbers. -/
def applyAdd (left right : Value) : HeapAction Value :=
  fun heap =>
    match left, right with
    | .text _, _ | _, .text _ => newText (heap.display left ++ heap.display right) heap
    | .list a, .list b => newList (heap.items a ++ heap.items b) heap
    | .list a, item => newList ((heap.items a).push item) heap
    | item, .list b => newList (#[item] ++ heap.items b) heap
    | _, _ => HeapAction.ofResult (arithmetic .add left right) id heap

/-- A binary operator on two values. -/
def applyBinary (op : BinaryOp) (left right : Value) : HeapAction Value :=
  match op with
  | .add => applyAdd left right
  | .sub | .mul | .div | .floorDiv | .rem | .pow =>
    HeapAction.ofResult (arithmetic op left right) id
  | .and | .or => HeapAction.ofResult (logical op left right) Value.boolean
  | .eq | .ne | .lt | .le | .gt | .ge => fun heap =>
    HeapAction.ofResult (compareValues heap op left right) Value.boolean heap

/-- The value after a step up or down. A character becomes a number. -/
def stepValue (up : Bool) (operand : Value) : Except TypeFault Value :=
  match operand.number? with
  | some value => .ok (.number (if up then value + 1 else value - 1))
  | none => .error (.stepping operand.kind)

/-- A unary operator on a value. A plus sign does nothing. -/
def applyUnary (op : UnaryOp) (operand : Value) : Except TypeFault Value :=
  match op with
  | .plus => .ok operand
  | .neg =>
    match operand.number? with
    | some value => .ok (.number (-value))
    | none => .error (.negation operand.kind)
  | .not =>
    match operand.boolean? with
    | some value => .ok (.boolean !value)
    | none => .error (.inversion operand.kind)
  | .increment => stepValue true operand
  | .decrement => stepValue false operand

/-- A value as an index into a sequence of the given length: a number that is an integer
from zero up to, and not including, the length. -/
def indexIn (index : Value) (length : Nat) : Except Fault Nat :=
  match index with
  | .number value =>
    match Number.integer? value with
    | none => .error (.type .indexFraction)
    | some position =>
      if 0 ≤ position ∧ position < length then .ok position.toNat
      else .error (.indexOutOfRange value length)
  | _ => .error (.type (.indexKind index.kind))

end Betty
