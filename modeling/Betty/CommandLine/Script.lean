import Betty.Diagnostic.Explain
import Betty.Diagnostic.Render

/-!
# Running a script

A script is read, checked and run. Its errors are written to the error stream, and its
input comes from the terminal. What the operating system writes about a process that has
crashed is not part of the streams here.
-/

namespace Betty

/-- The three streams that the program is connected to. -/
structure Terminal where
  /-- The bytes not yet read. -/
  input : List UInt8
  output : String
  errors : String

namespace Terminal

/-- A terminal where nothing has been written yet. -/
def ofInput (input : List UInt8) : Terminal := ⟨input, "", ""⟩

/-- Writes to the output. -/
def print (terminal : Terminal) (text : String) : Terminal :=
  { terminal with output := terminal.output ++ text }

/-- Writes to the error stream. -/
def complain (terminal : Terminal) (text : String) : Terminal :=
  { terminal with errors := terminal.errors ++ text }

end Terminal

/-- How programs are run from the command line. -/
structure Settings where
  /-- Use colour in messages. -/
  color : Bool
  /-- Only look for syntax errors. -/
  check : Bool
  /-- Write the value of the program, unless it is nothing. -/
  printResult : Bool

/-- A message that something outside the program went wrong. -/
def Settings.alert (settings : Settings) (message : String) : String :=
  (if settings.color then Palette.terminal.bold.on (Palette.terminal.red.on message)
    else message) ++ "\n"

/-- The value of the program as it is written at the end, if it is. -/
def Settings.resultText (settings : Settings) (session : Session) (ending : Ending) : String :=
  match ending with
  | .value value =>
    if settings.printResult && !value.isNone then session.machine.heap.display value ++ "\n"
    else ""
  | _ => ""

/-- How running a program ends, as far as the command line is concerned. -/
inductive Verdict where
  | good
  /-- An error has been reported. -/
  | bad
  /-- The whole process has ended on the spot. -/
  | crashed
deriving DecidableEq, Repr

/-- Runs a program on a store of its own, unless this does not end within the fuel. -/
def runSource (fuel : Nat) (settings : Settings) (source file : String) (terminal : Terminal) :
    Option (Verdict × Terminal) :=
  let parsed := parse source
  if !parsed.errors.isEmpty then
    let diagnostics := parsed.errors.map SyntaxError.diagnostic
    some (.bad, terminal.complain
      (renderDiagnostics .terminal source file diagnostics settings.color))
  else if settings.check then some (.good, terminal)
  else
    let session := Session.start (.ofInput terminal.input)
    match session.perform fuel [] (parsed.program.plan fuel) with
    | none => none
    | some (report, session) =>
      let terminal := { terminal with input := session.machine.console.input }
      let terminal := terminal.print report.output
      match report.ending with
      | .value _ => some (.good, terminal.print (settings.resultText session report.ending))
      | .crashed => some (.crashed, terminal)
      | _ => some (.bad,
          terminal.complain
            (renderDiagnostics .terminal source file report.diagnostics settings.color))

end Betty
