/-!
# Operators

The binary and unary operators of the language, with their spellings.
-/

namespace Betty

/-- The binary operators. -/
inductive BinaryOp where
  | add | sub | mul | div | floorDiv | rem | pow
  | eq | ne | lt | le | gt | ge
  | and | or
deriving DecidableEq, Repr

/-- The spelling of a binary operator. -/
def BinaryOp.spelling : BinaryOp → String
  | add => "+"
  | sub => "-"
  | mul => "*"
  | div => "/"
  | floorDiv => "//"
  | rem => "%"
  | pow => "^"
  | eq => "=="
  | ne => "!="
  | lt => "<"
  | le => "<="
  | gt => ">"
  | ge => ">="
  | and => "&&"
  | or => "||"

/-- The unary operators. -/
inductive UnaryOp where
  | plus | neg | not | increment | decrement
deriving DecidableEq, Repr

/-- Which side of its operand a unary operator stands on. -/
inductive Fixity where
  | leading | trailing
deriving DecidableEq, Repr

end Betty
