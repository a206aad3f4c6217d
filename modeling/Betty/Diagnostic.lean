import Betty.Fault

/-!
# Diagnostics

A diagnostic explains an error to the author of a program: a message with a code,
labels that point into the source text, and notes.
-/

namespace Betty

/-- A remark on a place in the source text. -/
structure Label where
  position : Position
  message : String
deriving DecidableEq, Repr

/-- An explanation of an error. -/
structure Diagnostic where
  code : Option String
  message : String
  labels : List Label
  notes : List String
deriving DecidableEq, Repr

namespace Diagnostic

/-- A diagnostic with nothing but a message. -/
def ofMessage (message : String) : Diagnostic := ⟨none, message, [], []⟩

/-- Adds a label after those that are there. -/
def addLabel (diagnostic : Diagnostic) (label : Label) : Diagnostic :=
  { diagnostic with labels := diagnostic.labels ++ [label] }

/-- Adds a note that offers help. -/
def addHelp (diagnostic : Diagnostic) (help : String) : Diagnostic :=
  { diagnostic with notes := diagnostic.notes ++ ["help: " ++ help] }

end Diagnostic

/-- The diagnostic of a syntax error. -/
def SyntaxError.diagnostic (error : SyntaxError) : Diagnostic where
  code := some "E0101"
  message := error.message
  labels := [⟨error.position, ""⟩]
  notes := []

/-- What a label says about the place of a fault. -/
def Fault.labelText : Fault → String
  | undefinedVariable _ => "not found in this scope"
  | undefinedFunction _ => "no intrinsic, function or variable with this name"
  | indexOutOfRange _ _ => "index out of range"
  | strayJump _ => "not inside a loop"
  | invalidTarget => "only variables and list elements can be assigned"
  | _ => ""

/-- The help that is offered for a fault. -/
def Fault.help? : Fault → Option String
  | missingMain => some "define `func main() \x7b ... \x7d`"
  | reservedName _ => some "pick a name that is not an intrinsic"
  | _ => none

/-- The diagnostic of a runtime error. -/
def RuntimeError.diagnostic (error : RuntimeError) : Diagnostic :=
  let plain : Diagnostic :=
    ⟨some error.fault.code, error.message, [⟨error.position, error.fault.labelText⟩], []⟩
  match error.fault.help? with
  | some help => plain.addHelp help
  | none => plain

end Betty
