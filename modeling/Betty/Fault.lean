import Betty.Number.Text
import Betty.Value

/-!
# Runtime errors

A fault is what went wrong while a program ran; a runtime error is a fault with the
position of the expression or statement that caused it. Operations that do not know
their place raise faults at the unknown position, which is filled in by the innermost
expression around them.

## Main definitions

* `Fault`, `Fault.message`, `Fault.code`.
* `RuntimeError`, `RuntimeError.locate`.
-/

namespace Betty

/-- How many arguments a function takes. -/
inductive Arity where
  | exactly (count : Nat)
  | between (least : Nat) (most : Nat)
  | any
deriving DecidableEq, Repr

namespace Arity

/-- Does the function take this many arguments? -/
def accepts (count : Nat) : Arity → Bool
  | exactly n => count == n
  | between least most => least ≤ count && count ≤ most
  | any => true

/-- The arity in words. -/
def text : Arity → String
  | exactly n => toString n
  | between least most => toString least ++ " to " ++ toString most
  | any => "any number of"

end Arity

/-- A value of a type that an operation does not take. -/
inductive TypeFault where
  | notNumeric (op : BinaryOp) (left right : Kind)
  | notBoolean (op : BinaryOp) (left right : Kind)
  | notOrdered (op : BinaryOp) (left right : Kind)
  | negation (operand : Kind)
  | inversion (operand : Kind)
  | stepping (operand : Kind)
  | indexKind (index : Kind)
  | indexFraction
  | condition (found : Kind)
  | iteration (found : Kind)
  | elementAssignment (found : Kind)
  | elementStep (found : Kind)
  | indexing (found : Kind)
  | calling (found : Kind)
  | notAFunction (name : String) (found : Kind)
  | numberArgument (intrinsic : String) (found : Kind)
  | listArgument (intrinsic : String) (found : Kind)
  | characterArgument (intrinsic : String) (found : Kind)
  | powerArguments
  | noLength (found : Kind)
  | noConversion (target found : Kind)
deriving DecidableEq, Repr

/-- The wording of a type fault. -/
def TypeFault.message : TypeFault → String
  | notNumeric op left right =>
    "Operator '" ++ op.spelling ++ "' requires numeric operands, got " ++ left.name ++ " and " ++
      right.name ++ "."
  | notBoolean op left right =>
    "Operator '" ++ op.spelling ++ "' requires boolean operands, got " ++ left.name ++ " and " ++
      right.name ++ "."
  | notOrdered op left right =>
    "Operator '" ++ op.spelling ++ "' is not supported between " ++ left.name ++ " and " ++
      right.name ++ "."
  | negation operand => "Cannot negate a value of type " ++ operand.name ++ "."
  | inversion operand => "Operator '!' requires a boolean, got " ++ operand.name ++ "."
  | stepping operand =>
    "Increment and decrement require a number or char, got " ++ operand.name ++ "."
  | indexKind index => "Index must be an integer, got " ++ index.name ++ "."
  | indexFraction => "Index must be an integer."
  | condition found => "Condition must be a boolean, got " ++ found.name ++ "."
  | iteration found => "Cannot iterate over a value of type " ++ found.name ++ "."
  | elementAssignment found =>
    "Cannot assign to an element of a value of type " ++ found.name ++ "."
  | elementStep found => "Cannot modify an element of a value of type " ++ found.name ++ "."
  | indexing found => "Cannot index into a value of type " ++ found.name ++ "."
  | calling found => "Cannot call a value of type " ++ found.name ++ "."
  | notAFunction name found => "'" ++ name ++ "' is a " ++ found.name ++ ", not a function."
  | numberArgument intrinsic found =>
    intrinsic ++ " requires a number, got " ++ found.name ++ "."
  | listArgument intrinsic found =>
    "The first argument of " ++ intrinsic ++ " must be a list, got " ++ found.name ++ "."
  | characterArgument intrinsic found =>
    intrinsic ++ " requires a char, got " ++ found.name ++ "."
  | powerArguments => "Arguments for pow must be numbers."
  | noLength found => "len is not defined for " ++ found.name ++ "."
  | noConversion target found =>
    "Conversion to " ++ target.name ++ " not supported for type " ++ found.name ++ "."

/-- What can go wrong with the streams of a program. -/
inductive StreamFault where
  | notUtf8
  | outputFull
deriving DecidableEq, Repr

/-- The wording of a stream fault. -/
def StreamFault.message : StreamFault → String
  | notUtf8 => "stream did not contain valid UTF-8"
  | outputFull => "write limit reached"

/-- What can go wrong while a program runs. -/
inductive Fault where
  | undefinedVariable (name : String)
  | undefinedFunction (name : String)
  | type (fault : TypeFault)
  | arity (name : String) (expected : Arity) (found : Nat)
  | indexOutOfRange (index : Float) (length : Nat)
  | reservedName (name : String)
  | duplicateGlobal (name : String)
  | strayJump (word : Keyword)
  | invalidTarget
  | missingMain
  | mainHasParameters
  | noMatchingArm (value : String)
  | malformed (fault : SyntaxFault)
  | noNumber (text : String)
  | noCharacter (text : String)
  | noCodePoint (code : Float)
  | stream (fault : StreamFault)

namespace Fault

/-- The wording of a fault. -/
def message : Fault → String
  | undefinedVariable name => "Undefined variable '" ++ name ++ "'."
  | undefinedFunction name => "Undefined function '" ++ name ++ "'."
  | type fault => fault.message
  | arity name expected found =>
    "Function '" ++ name ++ "' expects " ++ expected.text ++ " argument(s) but got " ++
      toString found ++ "."
  | indexOutOfRange index length =>
    "Index " ++ Number.Style.plain.render index ++ " is out of range for length " ++
      toString length ++ "."
  | reservedName name =>
    "'" ++ name ++ "' is the name of an intrinsic function and cannot be redefined."
  | duplicateGlobal name => "Global variable '" ++ name ++ "' is already declared."
  | strayJump word => "'" ++ word.spelling ++ "' used outside of a loop."
  | invalidTarget => "Invalid assignment target."
  | missingMain => "No main function found."
  | mainHasParameters => "main() function cannot have parameters."
  | noMatchingArm value => "No switch arm matched the value " ++ value ++ "."
  | malformed fault => "Cannot execute code containing a syntax error: " ++ fault.message
  | noNumber text => "Could not convert string '" ++ text ++ "' to number."
  | noCharacter text => "Could not convert string '" ++ text ++ "' to char."
  | noCodePoint code =>
    "Number " ++ Number.Style.plain.render code ++ " is outside the valid range for characters."
  | stream fault => "I/O error: " ++ fault.message

/-- The wording of a fault without the words that introduce a fault of the streams. -/
def detail : Fault → String
  | stream fault => fault.message
  | other => other.message

/-- The code under which a fault is documented. -/
def code : Fault → String
  | undefinedVariable _ => "E0201"
  | undefinedFunction _ => "E0202"
  | type _ => "E0203"
  | arity _ _ _ => "E0204"
  | indexOutOfRange _ _ => "E0205"
  | reservedName _ => "E0206"
  | duplicateGlobal _ => "E0207"
  | strayJump _ => "E0208"
  | invalidTarget => "E0209"
  | missingMain | mainHasParameters => "E0210"
  | noMatchingArm _ => "E0211"
  | malformed _ => "E0212"
  | noNumber _ | noCharacter _ | noCodePoint _ => "E0213"
  | stream _ => "E0214"

/-- Does the fault belong to a place in the program? The streams of a program and the
absence of a main function do not. -/
def hasPlace : Fault → Bool
  | missingMain | stream _ => false
  | _ => true

end Fault

/-- A fault and the position of the node that caused it. -/
structure RuntimeError where
  fault : Fault
  position : Position

namespace RuntimeError

/-- A fault whose place is not known yet. -/
def unplaced (fault : Fault) : RuntimeError :=
  ⟨fault, .unknown⟩

/-- Places an error that has no place yet. -/
def locate (error : RuntimeError) (position : Position) : RuntimeError :=
  if error.fault.hasPlace then { error with position := error.position.orElse position }
  else error

/-- The wording of the fault. -/
def message (error : RuntimeError) : String :=
  error.fault.message

end RuntimeError

end Betty
