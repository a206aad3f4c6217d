import Betty.Evaluate
import Betty.Store

/-!
# Running a program

A run declares the global variables, then registers the functions, and then calls the
function `main`, which takes no arguments. A failure in one of these steps keeps the
later ones from happening. Everything that is written is passed on at once, so there is
nothing left to be flushed at the end, and no way to fail there.

## Main definitions

* `Program.plan`: the plan of a run.
* `Program.run`: what a run does to the machine.
-/

namespace Betty

/-- Declares a global variable, which holds nothing. -/
def declareGlobal (name : String) (position : Position) : Eval Unit :=
  Eval.located position fun machine =>
    match machine.environment.declareGlobal name .none with
    | .ok environment => .done () { machine with environment }
    | .error fault => .failed (.unplaced fault) machine

/-- Registers a function under its name. A later function replaces an earlier one with the
same name; the names of intrinsic functions cannot be taken. -/
def registerFunction (declaration : Declaration) : Eval Unit :=
  match declaration.name with
  | none => pure ()
  | some name =>
    if Intrinsic.isReserved name then
      Action.fail ⟨.reservedName name, declaration.position⟩
    else
      Action.update fun machine =>
        { machine with functions := machine.functions.put name declaration }

namespace Plan

/-- Declares global variables. -/
def declareGlobals : List (String × Position) → Plan Unit
  | [] => pure ()
  | (name, position) :: rest => do
    perform (declareGlobal name position)
    declareGlobals rest

/-- Registers functions. -/
def registerFunctions : List Declaration → Plan Unit
  | [] => pure ()
  | declaration :: rest => do
    perform (registerFunction declaration)
    registerFunctions rest

end Plan

/-- What follows the declarations of global variables: the functions are registered, and `main`
is called. -/
def Program.mainPlan (fuel : Nat) (program : Program) : Plan Value := do
  Plan.registerFunctions program.functions
  match program.function? "main" with
  | none => Plan.fault .missingMain
  | some main =>
    if main.parameters.isEmpty then Plan.callFunction fuel (.ofProgram main) []
    else Plan.fail ⟨.mainHasParameters, main.position⟩

/-- The plan of a run. Its value is the one that `main` returns. -/
def Program.plan (fuel : Nat) (program : Program) : Plan Value := do
  Plan.declareGlobals program.globals
  program.mainPlan fuel

/-- Runs a program. -/
def Program.run (fuel : Nat) (program : Program) : Eval Value :=
  (program.plan fuel).run

/-- Fuel for running programs: far more than any computation can use up in practice. -/
def ampleFuel : Nat := 1000000000000000000

end Betty
