import Betty.Diagnostic
import Betty.Session

/-!
# Running a text and explaining what went wrong

A text is run only if it has no syntax errors. What goes wrong is returned as text
or as diagnostics.
-/

namespace Betty

/-- The diagnostics of a step of a session: those of all syntax errors, or the one of the
runtime error. -/
def Report.diagnostics (report : Report) : List Diagnostic :=
  match report.ending with
  | .refused => report.errors.map SyntaxError.diagnostic
  | .error error => [error.diagnostic]
  | .value _ | .crashed => []

/-- What went wrong in a step of a session, in words: the first syntax error, or the runtime
error. -/
def Report.explanation? (report : Report) : Option String :=
  match report.ending with
  | .refused => report.errors.head?.map fun error => "Syntax error: " ++ error.located
  | .error error => some ("Runtime error: " ++ error.message)
  | .value _ | .crashed => none

end Betty
