import Betty.Outcome
import Betty.Program
import Betty.Token.Cursor

/-!
# Input of the parser

The parser sees the tokens of a text one at a time, with a second one in view, and
collects the syntax errors that it can go on after.

## Main definitions

* `Input`: the tokens ahead and the errors so far.
* `Input.synchronize`, `Input.skipBody`: where to go on after an error.
* `Reading`: a parsing step.
* `expectSymbol`, `expectKeyword`, `expectName`: taking a token that must be there.
-/

namespace Betty

/-- The state of the parser. -/
structure Input where
  /-- The tokens not yet taken, without the one that marks the end of the text. -/
  ahead : List Token
  /-- Where the text ends. -/
  finish : Position
  /-- The number of tokens taken. -/
  taken : Nat
  /-- The errors noticed so far, in the order in which they were noticed. -/
  errors : Array SyntaxError
  /-- The number of the source text. -/
  source : Nat

namespace Input

/-- The tokens of a text, ending with the one that marks its end. -/
def ofTokens (source : Nat) (tokens : List Token) : Input where
  ahead := tokens.dropLast
  finish := (tokens.getLast?.map Token.position).getD .start
  taken := 0
  errors := #[]
  source := source

/-- The token to be taken next; at the end of the text the one that marks it. -/
def current (input : Input) : Token :=
  input.ahead.headD ⟨.endOfInput, input.finish⟩

/-- The lexeme of the token after the current one. -/
def following (input : Input) : Lexeme :=
  (input.ahead.tail.head?.map Token.lexeme).getD .endOfInput

/-- Takes the current token. The end of the text cannot be taken. -/
def advance (input : Input) : Input :=
  match input.ahead with
  | [] => input
  | _ :: rest => { input with ahead := rest, taken := input.taken + 1 }

/-- Takes `n` tokens. -/
def skip : Nat → Input → Input
  | 0, input => input
  | n + 1, input => skip n input.advance

/-- Adds an error. -/
def report (input : Input) (error : SyntaxError) : Input :=
  { input with errors := input.errors.push error }

/-- Does a statement start with this lexeme, or a block end there? -/
def resumes : Lexeme → Bool
  | .symbol .rightBrace => true
  | .keyword .ifWord | .keyword .whileWord | .keyword .forWord | .keyword .foreachWord
  | .keyword .doWord | .keyword .switchWord | .keyword .returnWord | .keyword .breakWord
  | .keyword .continueWord | .keyword .funcWord => true
  | _ => false

/-- Skips to a place where a statement can start: after the next semicolon, or before
a token that `resumes`, whichever comes first. -/
def synchronize (input : Input) : Input :=
  let passed := input.ahead.takeWhile fun t =>
    !(t.lexeme.isSymbol .semicolon || resumes t.lexeme)
  let stopped := input.skip passed.length
  if stopped.current.lexeme.isSymbol .semicolon then stopped.advance else stopped

/-- The number of tokens up to and including the brace that closes the first opening
one. `depth` counts the braces that are open. -/
def bracedLength (depth : Nat) : List Token → Nat
  | [] => 0
  | t :: rest =>
    if t.lexeme.isSymbol .leftBrace then bracedLength (depth + 1) rest + 1
    else if t.lexeme.isSymbol .rightBrace then
      if depth = 1 then 1 else bracedLength (depth - 1) rest + 1
    else bracedLength depth rest + 1

/-- Skips the body of a function whose head is malformed: everything up to the next
opening brace and then to the one that closes it, but not past another `func` before
the body. -/
def skipBody (input : Input) : Input :=
  let passed := input.ahead.takeWhile fun t =>
    !(t.lexeme.isSymbol .leftBrace || t.lexeme.isKeyword .funcWord)
  let stopped := input.skip passed.length
  if stopped.current.lexeme.isSymbol .leftBrace then
    stopped.skip (bracedLength 0 stopped.ahead)
  else stopped

end Input

/-- A parsing step. It fails with an error that has not been recorded yet. -/
abbrev Reading (α : Type) : Type :=
  Action SyntaxError Input α

namespace Reading

/-- The lexeme of the current token. -/
def lexeme : Reading Lexeme :=
  Action.gets fun input => input.current.lexeme

/-- The position of the current token. -/
def position : Reading Position :=
  Action.gets fun input => input.current.position

/-- Is the current token this sign? -/
def atSymbol (sign : Symbol) : Reading Bool :=
  Action.gets fun input => input.current.lexeme.isSymbol sign

/-- Is the current token this reserved word? -/
def atKeyword (word : Keyword) : Reading Bool :=
  Action.gets fun input => input.current.lexeme.isKeyword word

/-- Takes the current token. -/
def advance : Reading Unit :=
  Action.update Input.advance

/-- Records a fault at the current token and goes on. -/
def report (fault : Lexeme → SyntaxFault) : Reading Unit :=
  Action.update fun input =>
    input.report ⟨fault input.current.lexeme, input.current.position⟩

/-- Gives up because of a fault at the current token. -/
def reject {α : Type} (fault : Lexeme → SyntaxFault) : Reading α :=
  fun input => .failed ⟨fault input.current.lexeme, input.current.position⟩ input

/-- Records the fault of a malformed token, and takes the token. -/
def absorb (fault : LexicalFault) : Reading Unit := do
  report fun _ => .lexical fault
  advance

/-- Records that the current token is not the one that must stand here. A malformed
token is taken, since its own fault explains the error; any other token stays. -/
def missing (fault : Lexeme → SyntaxFault) : Reading Unit := do
  match ← lexeme with
  | .error lexical => absorb lexical
  | _ => report fault

/-- Takes the given sign, or records that it is missing. -/
def expectSymbol (sign : Symbol) : Reading Unit := do
  if ← atSymbol sign then advance else missing (.expectedSymbol sign)

/-- Takes the given reserved word, or records that it is missing. -/
def expectKeyword (word : Keyword) : Reading Unit := do
  if ← atKeyword word then advance else missing (.expectedKeyword word)

/-- Takes a name, or gives up. -/
def expectName (role : NameRole) : Reading String := do
  match ← lexeme with
  | .identifier name =>
    advance
    return name
  | _ => reject (.expectedName role)

end Reading

end Betty
