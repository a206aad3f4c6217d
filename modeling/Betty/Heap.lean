import Betty.Fault
import Betty.Outcome

/-!
# Lists, texts and functions in the heap

The heap holds the elements of every list. List values refer to it, so that all
holders of a list see its changes. Cells are never given back. The heap also holds the
texts that have been created, and knows how many functions have been.

A list may contain itself. The functions that follow references into nested lists
are bounded by the number of cells: without cycles no list is nested deeper.

## Main definitions

* `Heap.alloc`, `Heap.items`, `Heap.modify`: new lists, their elements, their changes.
* `Heap.display`: the text of a value.
* `Heap.same`: equality of values.
* `Heap.clone`: a copy that shares no list with the value.
* `HeapAction.newList`, `HeapAction.newText`, `HeapAction.newFunction`: new values.
-/

namespace Betty

/-- The elements of all lists, the texts, and the number of functions. -/
structure Heap where
  cells : Array (Array Value)
  texts : Pool
  functions : Nat

namespace Heap

/-- The heap before anything is created. -/
def empty : Heap := ⟨#[], .empty, 0⟩

instance : Inhabited Heap := ⟨empty⟩

/-- A new list with the given elements. -/
def alloc (heap : Heap) (items : Array Value) : ListRef × Heap :=
  (heap.cells.size, { heap with cells := heap.cells.push items })

/-- The elements of a list. -/
def items (heap : Heap) (ref : ListRef) : Array Value :=
  heap.cells.getD ref #[]

/-- Changes the elements of a list. -/
def modify (heap : Heap) (ref : ListRef) (change : Array Value → Array Value) : Heap :=
  { heap with cells := heap.cells.modify ref change }

/-- The elements of a list, or the characters of a text. -/
def elements? (heap : Heap) : Value → Option (List Value)
  | .list ref => some (heap.items ref).toList
  | .text value => some (value.text.toList.map Value.character)
  | _ => none

/-! ### Text -/

/-- The text of a value whose lists are nested at most `depth` deep. -/
def displayWithin (heap : Heap) : Nat → Value → String
  | _, .number value => Number.Style.value.render value
  | _, .text value => value.text
  | _, .boolean value => if value then "true" else "false"
  | _, .character value => value.toString
  | _, .function _ => "<function>"
  | _, .none => "none"
  | 0, .list _ => "[...]"
  | depth + 1, .list ref =>
    "[" ++ ", ".intercalate ((heap.items ref).toList.map (displayWithin heap depth)) ++ "]"

/-- The text of a value. -/
def display (heap : Heap) (value : Value) : String :=
  heap.displayWithin heap.cells.size value

/-! ### Equality -/

/-- Are two values, whose lists are nested at most `depth` deep, equal? Texts are equal if
they have the same number; lists, if they are the same list or their elements are equal one
by one; functions, if they come from the same declaration. -/
def sameWithin (heap : Heap) : Nat → Value → Value → Bool
  | _, .number a, .number b => a == b
  | _, .text a, .text b => a.id == b.id
  | _, .boolean a, .boolean b => a == b
  | _, .character a, .character b => a == b
  | _, .function a, .function b => a.declaration.same b.declaration
  | _, .none, .none => true
  | 0, .list a, .list b => a == b
  | depth + 1, .list a, .list b =>
    a == b ||
      ((heap.items a).size == (heap.items b).size &&
        ((heap.items a).toList.zip (heap.items b).toList).all fun pair =>
          sameWithin heap depth pair.1 pair.2)
  | _, _, _ => false

/-- Are two values equal, a number and a character never being so? -/
def same (heap : Heap) (a b : Value) : Bool :=
  heap.sameWithin heap.cells.size a b

/-! ### Copies -/

/-- A copy of a value whose lists are nested at most `depth` deep, with new lists in the
place of all its lists. -/
def cloneWithin : Nat → Heap → Value → Value × Heap
  | depth + 1, heap, .list ref =>
    let (items, heap) := (heap.items ref).foldl (fun (copied, heap) item =>
      let (item, heap) := cloneWithin depth heap item
      (copied.push item, heap)) (#[], heap)
    let (copy, heap) := heap.alloc items
    (.list copy, heap)
  | _, heap, value => (value, heap)

/-- A copy of a value that shares no list with it. -/
def clone (heap : Heap) (value : Value) : Value × Heap :=
  cloneWithin heap.cells.size heap value

end Heap

/-- A computation on the heap. -/
abbrev HeapAction (α : Type) : Type :=
  Action Fault Heap α

namespace HeapAction

/-- Stops with a type fault. -/
def typeFault {α : Type} (fault : TypeFault) : HeapAction α :=
  Action.fail (.type fault)

/-- A new list with the given elements, as a value. -/
def newList (items : Array Value) : HeapAction Value :=
  fun heap =>
    let (ref, heap) := heap.alloc items
    .done (.list ref) heap

/-- A text, as a value. -/
def newText (text : String) : HeapAction Value :=
  fun heap =>
    let texts := heap.texts
    let heap := { heap with texts := .empty }
    let (interned, texts) := texts.intern text
    .done (.text interned) { heap with texts }

/-- A new function that keeps the given chain, as a value. -/
def newFunction (declaration : Declaration) (chain : Chain) : HeapAction Value :=
  fun heap =>
    .done (.function ⟨declaration, chain, some heap.functions⟩)
      { heap with functions := heap.functions + 1 }

end HeapAction

end Betty
