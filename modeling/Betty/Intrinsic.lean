import Betty.Fault

/-!
# Intrinsic functions

The functions that every program can call. A program cannot define a function with
one of their names.
-/

namespace Betty

/-- The intrinsic functions. -/
inductive Intrinsic where
  | print | println | input
  | tostr | tonum | tobool | tochar | tolist
  | concat | isdigit | isspace
  | append | remove | removeat | range | clone | len
  | sin | cos | tan | abs | sqrt | floor | ceil | pow
deriving DecidableEq, Repr

namespace Intrinsic

/-- The name by which a program calls the function. -/
def name : Intrinsic → String
  | print => "print"
  | println => "println"
  | input => "input"
  | tostr => "tostr"
  | tonum => "tonum"
  | tobool => "tobool"
  | tochar => "tochar"
  | tolist => "tolist"
  | concat => "concat"
  | isdigit => "isdigit"
  | isspace => "isspace"
  | append => "append"
  | remove => "remove"
  | removeat => "removeat"
  | range => "range"
  | clone => "clone"
  | len => "len"
  | sin => "sin"
  | cos => "cos"
  | tan => "tan"
  | abs => "abs"
  | sqrt => "sqrt"
  | floor => "floor"
  | ceil => "ceil"
  | pow => "pow"

/-- All intrinsic functions. -/
def all : List Intrinsic :=
  [print, println, input, tostr, tonum, tobool, tochar, tolist, concat, isdigit, isspace,
   append, remove, removeat, range, clone, len, sin, cos, tan, abs, sqrt, floor, ceil, pow]

/-- How many arguments the function takes. -/
def arity : Intrinsic → Arity
  | print | println | concat => .any
  | input => .between 0 1
  | append | remove | removeat | range | pow => .exactly 2
  | _ => .exactly 1

/-- The intrinsic function with the given name. -/
def ofName? (name : String) : Option Intrinsic :=
  all.find? fun intrinsic => intrinsic.name = name

/-- Is this the name of an intrinsic function? -/
def isReserved (name : String) : Bool :=
  (ofName? name).isSome

/-- Checks the number of arguments. This comes before any of them is evaluated. -/
def checkArity (intrinsic : Intrinsic) (count : Nat) : Except Fault Unit :=
  if intrinsic.arity.accepts count then .ok ()
  else .error (.arity intrinsic.name intrinsic.arity count)

end Intrinsic

end Betty
