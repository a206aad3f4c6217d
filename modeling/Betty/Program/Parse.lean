import Betty.Program.Grammar

/-!
# From source texts to programs

Every text yields a program and the list of its syntax errors. The program of a text
without syntax errors has no error nodes.

## Main definitions

* `Source`: a numbered source text.
* `Source.parse`: its program and its syntax errors.
* `parseExpression`: the expression at the start of a text.
-/

namespace Betty

/-- A source text and its number. Texts whose programs are run together have different
numbers, which tell their functions apart. -/
structure Source where
  text : String
  number : Nat

/-- A program and the syntax errors of its text, in the order in which they were
noticed. -/
structure Parsed where
  program : Program
  errors : List SyntaxError

namespace Source

/-- The text as the only source of a program. -/
def ofText (text : String) : Source := ⟨text, 0⟩

/-- The state of the parser at the start of the text. -/
def input (source : Source) : Input :=
  Input.ofTokens source.number (tokenize source.text)

/-- The program of a text, and its syntax errors. -/
def parse (source : Source) : Parsed :=
  match Grammar.program (Grammar.fuelFor source.input) source.input with
  | .done program input => ⟨program, input.errors.toList⟩
  | .failed error input => ⟨.empty, input.errors.toList ++ [error]⟩
  | .outOfFuel => ⟨.empty, []⟩

end Source

/-- The program of a single text, and its syntax errors. -/
def parse (text : String) : Parsed :=
  (Source.ofText text).parse

/-- The expression at the start of a text, whatever follows it, or the error that keeps
it from being read. -/
def parseExpression (text : String) : Except SyntaxError Expr :=
  let input := (Source.ofText text).input
  match Grammar.expression (Grammar.fuelFor input) Grammar.assignLevel input with
  | .done expr _ => .ok expr
  | .failed error _ => .error error
  | .outOfFuel => .error ⟨.unexpected .endOfInput, .start⟩

end Betty
