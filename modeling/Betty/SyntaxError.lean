import Betty.Token

/-!
# Syntax errors

A syntax error is a fault, which says what the grammar wanted and what it found,
and the position where it was noticed.
-/

namespace Betty

/-- What a name that the grammar asks for would be the name of. -/
inductive NameRole where
  | globalVariable | function | parameter | loopVariable
deriving DecidableEq, Repr

/-- Where the grammar asks for a name, in words. -/
def NameRole.place : NameRole → String
  | globalVariable => "in global declaration"
  | function => "after 'func'"
  | parameter => "in parameter list"
  | loopVariable => "as the foreach variable"

/-- What can be wrong with a row of tokens. -/
inductive SyntaxFault where
  | lexical (fault : LexicalFault)
  | expectedSymbol (sign : Symbol) (found : Lexeme)
  | expectedKeyword (word : Keyword) (found : Lexeme)
  | expectedName (role : NameRole) (found : Lexeme)
  | expectedParameters (found : Lexeme)
  | unclosedParameters (found : Lexeme)
  | expectedBody (found : Lexeme)
  | expectedCase (found : Lexeme)
  | defaultNotLast
  | wildcardNotLast
  | unexpected (found : Lexeme)
  | unexpectedAtTop (found : Lexeme)

namespace SyntaxFault

/-- How a missing name shows what stands in its place: malformed text by its fault,
and everything else as usual. -/
def foundInstead : Lexeme → String
  | .error fault => fault.message
  | lexeme => lexeme.display

/-- The wording of a syntax fault. -/
def message : SyntaxFault → String
  | lexical fault => fault.message
  | expectedSymbol sign found =>
    "Expected '" ++ sign.spelling ++ "' but found " ++ found.display ++ "."
  | expectedKeyword word found =>
    "Expected '" ++ word.spelling ++ "' but found " ++ found.display ++ "."
  | expectedName role found =>
    "Expected identifier " ++ role.place ++ " but found " ++ foundInstead found ++ "."
  | expectedParameters found =>
    "Expected '(' to start a parameter list but found " ++ found.display ++ "."
  | unclosedParameters found => "Expected ')' after parameters but found " ++ found.display ++ "."
  | expectedBody found =>
    "Expected '\x7b' to start a function body but found " ++ found.display ++ "."
  | expectedCase found => "Expected 'case' or 'default' but found " ++ found.display ++ "."
  | defaultNotLast => "'default' must be the last case of a switch."
  | wildcardNotLast => "'_' must be the last arm of a switch expression."
  | unexpected found => "Unexpected token " ++ found.display ++ "."
  | unexpectedAtTop found =>
    "Unexpected token " ++ found.display ++ " at top level; expected a function definition."

end SyntaxFault

/-- A fault in a program text and the place where it was noticed. -/
structure SyntaxError where
  fault : SyntaxFault
  position : Position

namespace SyntaxError

/-- The wording of the fault. -/
def message (e : SyntaxError) : String :=
  e.fault.message

/-- The message with the place in front. -/
def located (e : SyntaxError) : String :=
  "[Line " ++ toString e.position.line ++ ", Column " ++ toString e.position.column ++ "] " ++
    e.message

end SyntaxError

end Betty
