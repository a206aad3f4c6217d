import Betty.Intrinsic
import Betty.Intrinsic.Convert
import Betty.Operator.Apply
import Betty.Plan

/-!
# What the intrinsic functions compute

The functions that change a list change it for all its holders, and yield a new list
with the elements it has then.

## Main definitions

* `Intrinsic.onHeap`: the functions that need no streams.
* `Intrinsic.plan`, `Intrinsic.apply`: all functions.
-/

namespace Betty.Intrinsic

/-! ### Numbers -/

/-- A function of one number. -/
def ofNumber (intrinsic : Intrinsic) (compute : Float → Float) (argument : Value) :
    HeapAction Value :=
  match argument with
  | .number value => pure (.number (compute value))
  | other => HeapAction.typeFault (.numberArgument intrinsic.name other.kind)

/-- A power of numbers. -/
def power (base exponent : Value) : HeapAction Value :=
  match base, exponent with
  | .number a, .number b => pure (.number (a.pow b))
  | _, _ => HeapAction.typeFault .powerArguments

/-! ### Characters -/

/-- A property of characters. -/
def ofCharacter (intrinsic : Intrinsic) (test : Char → Bool) (argument : Value) :
    HeapAction Value :=
  match argument with
  | .character value => pure (.boolean (test value))
  | other => HeapAction.typeFault (.characterArgument intrinsic.name other.kind)

/-! ### Lists -/

/-- A change of the list that is the first argument, and a new list with its elements
afterwards. -/
def changeList (intrinsic : Intrinsic) (argument : Value)
    (change : Heap → Array Value → Except Fault (Array Value → Array Value)) :
    HeapAction Value :=
  match argument with
  | .list ref => fun heap =>
    match change heap (heap.items ref) with
    | .ok edit =>
      let heap := heap.modify ref edit
      HeapAction.newList (heap.items ref) heap
    | .error fault => .failed fault heap
  | other => HeapAction.typeFault (.listArgument intrinsic.name other.kind)

/-- Adds a value at the end of a list. -/
def appendTo (list item : Value) : HeapAction Value :=
  changeList .append list fun _ _ => .ok fun items => items.push item

/-- Removes the first element that is equal to a value, if there is one. -/
def removeFrom (list item : Value) : HeapAction Value :=
  changeList .remove list fun heap items =>
    match items.findIdx? fun element => equalValues heap element item with
    | some position => .ok fun items => items.eraseIdxIfInBounds position
    | none => .ok id

/-- Removes the element at an index. -/
def removeAt (list index : Value) : HeapAction Value :=
  changeList .removeat list fun _ items =>
    match indexIn index items.size with
    | .ok position => .ok fun items => items.eraseIdxIfInBounds position
    | .error fault => .error fault

/-- The numbers from `next` in steps of one, as long as they are below `stop`, after those
found already; `none` if they do not end within the fuel. -/
def countUp (stop : Float) : Nat → Float → Array Value → Option (Array Value)
  | 0, _, _ => none
  | fuel + 1, next, found =>
    if next < stop then countUp stop fuel (next + 1) (found.push (.number next))
    else some found

/-- The list of the numbers from `start` in steps of one, as long as they are below
`stop`. -/
def rangeOf (fuel : Nat) (start stop : Value) : HeapAction Value :=
  match start, stop with
  | .number a, .number b =>
    match countUp b fuel a #[] with
    | some items => HeapAction.newList items
    | none => Action.exhausted
  | .number _, other => HeapAction.typeFault (.numberArgument range.name other.kind)
  | other, _ => HeapAction.typeFault (.numberArgument range.name other.kind)

/-- The number of elements of a list, or of characters of a text. -/
def lengthOf (argument : Value) : HeapAction Value :=
  match argument with
  | .text value => pure (.number (Float.ofNat value.text.length))
  | .list ref => Action.gets fun heap => .number (Float.ofNat (heap.items ref).size)
  | other => HeapAction.typeFault (.noLength other.kind)

/-- A copy that shares no list with the value. -/
def cloneOf (argument : Value) : HeapAction Value :=
  fun heap =>
    let (copy, heap) := heap.clone argument
    .done copy heap

/-! ### All functions -/

/-- The texts of values, one after another. -/
def joinedText (heap : Heap) (values : List Value) : String :=
  String.join (values.map heap.display)

/-- A conversion that does not depend on the heap. -/
def converted {α : Type} (result : Except Fault α) (make : α → Value) : HeapAction Value :=
  match result with
  | .ok value => pure (make value)
  | .error fault => Action.fail fault

/-- A call with arguments that the function does not take. -/
def wrongArity (intrinsic : Intrinsic) (arguments : List Value) : HeapAction Value :=
  Action.fail (.arity intrinsic.name intrinsic.arity arguments.length)

/-- The functions that use the heap only. -/
def onHeap (fuel : Nat) (intrinsic : Intrinsic) (arguments : List Value) : HeapAction Value :=
  match intrinsic, arguments with
  | concat, values => fun heap => HeapAction.newText (joinedText heap values) heap
  | tostr, [value] => fun heap => HeapAction.newText (heap.display value) heap
  | tonum, [value] => converted (toNumber value) Value.number
  | tobool, [value] => converted (toBoolean value) Value.boolean
  | tochar, [value] => converted (toCharacter value) Value.character
  | tolist, [value] =>
    match toElements value with
    | .ok items => HeapAction.newList items
    | .error fault => Action.fail fault
  | isdigit, [value] => ofCharacter isdigit Char.isDigit value
  | isspace, [value] => ofCharacter isspace Text.isBlank value
  | append, [list, item] => appendTo list item
  | remove, [list, item] => removeFrom list item
  | removeat, [list, index] => removeAt list index
  | range, [start, stop] => rangeOf fuel start stop
  | clone, [value] => cloneOf value
  | len, [value] => lengthOf value
  | sin, [value] => ofNumber sin Float.sin value
  | cos, [value] => ofNumber cos Float.cos value
  | tan, [value] => ofNumber tan Float.tan value
  | abs, [value] => ofNumber abs Float.abs value
  | sqrt, [value] => ofNumber sqrt Float.sqrt value
  | floor, [value] => ofNumber floor Float.floor value
  | ceil, [value] => ofNumber ceil Float.ceil value
  | pow, [base, exponent] => power base exponent
  | other, values => wrongArity other values

/-- Which lists the function changes. -/
def changes (intrinsic : Intrinsic) (arguments : List Value) : List ListRef :=
  match intrinsic, arguments with
  | append, .list ref :: _ | remove, .list ref :: _ | removeat, .list ref :: _ => [ref]
  | _, _ => []

/-- Reads a line, without its end. -/
def readLine : Plan Value := do
  let line ← Plan.readLine
  Plan.onHeap [] (HeapAction.newText (stripLineEnd line))

/-- The plan of a call with evaluated arguments. -/
def plan (fuel : Nat) (intrinsic : Intrinsic) (arguments : List Value) : Plan Value :=
  match intrinsic, arguments with
  | print, values => do
    let text ← Plan.look fun machine => joinedText machine.heap values
    Plan.write text
    return .none
  | println, values => do
    let text ← Plan.look fun machine => joinedText machine.heap values
    Plan.write (text ++ "\n")
    return .none
  | input, [] => readLine
  | input, [prompt] => do
    let text ← Plan.look fun machine => machine.heap.display prompt
    Plan.write text
    readLine
  | other, values => Plan.onHeap (other.changes values) (other.onHeap fuel values)

/-- A call of an intrinsic function with evaluated arguments. -/
def apply (fuel : Nat) (intrinsic : Intrinsic) (arguments : List Value) : Eval Value :=
  (intrinsic.plan fuel arguments).run

end Betty.Intrinsic
