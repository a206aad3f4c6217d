import Betty.Pool
import Betty.Program

/-!
# Values

A value is a number, a text, a truth value, a character, a list, a function or
nothing. Lists are shared: a list value refers to a cell of the heap. A function
value is a declaration with the chain of frames in which it was created; it is an object
of its own, so that creating it twice gives two functions.
-/

namespace Betty

/-- A reference to a list in the heap. -/
abbrev ListRef : Type := Nat

/-- A reference to a frame of the environment. -/
abbrev FrameRef : Type := Nat

/-- A reference to a function that has been created. -/
abbrev FunctionRef : Type := Nat

/-- A chain of frames, the innermost first. -/
abbrev Chain : Type := List FrameRef

/-- A function together with the frames that its free names refer to. A function of the
program keeps no frames, and is not created by anything. -/
structure Closure where
  declaration : Declaration
  chain : Chain
  ref : Option FunctionRef

/-- A function of the program. -/
def Closure.ofProgram (declaration : Declaration) : Closure :=
  ⟨declaration, [], none⟩

/-- A value of the language. -/
inductive Value where
  | number (value : Float)
  | text (value : Interned)
  | boolean (value : Bool)
  | character (value : Char)
  | list (ref : ListRef)
  | function (closure : Closure)
  | none

instance : Inhabited Value := ⟨.none⟩

/-- The types of values. -/
inductive Kind where
  | number | text | boolean | character | list | function | none
deriving DecidableEq, Repr

/-- The name of a type in messages. -/
def Kind.name : Kind → String
  | number => "number"
  | text => "string"
  | boolean => "boolean"
  | character => "char"
  | list => "list"
  | function => "function"
  | none => "none"

namespace Value

/-- The type of a value. -/
def kind : Value → Kind
  | number _ => .number
  | text _ => .text
  | boolean _ => .boolean
  | character _ => .character
  | list _ => .list
  | function _ => .function
  | none => .none

/-- The value as a number: a character counts as its code point. -/
def number? : Value → Option Float
  | number value => some value
  | character value => some value.val.toFloat
  | _ => Option.none

/-- The value as a truth value. -/
def boolean? : Value → Option Bool
  | boolean value => some value
  | _ => Option.none

/-- Is this the value that stands for nothing? -/
def isNone : Value → Bool
  | none => true
  | _ => false

end Value

end Betty
