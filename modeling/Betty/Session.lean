import Betty.Program.Parse
import Betty.Run

/-!
# Sessions

A session runs one program text after another on the same store: the global
variables, the functions and the streams are kept from one to the next. Texts are
numbered as they come. Nothing can be said of a step that does not end within the fuel.

## Main definitions

* `Session.runText`: parses and runs a text.
* `Session.call`: calls a function that an earlier text has yielded.
* `Report`: what a step has done.
-/

namespace Betty

/-- How a step of a session ends. -/
inductive Ending where
  | value (value : Value)
  | error (error : RuntimeError)
  /-- The text has syntax errors and was not run. -/
  | refused
  /-- The run has crashed. -/
  | crashed

/-- What a step of a session has done. -/
structure Report where
  ending : Ending
  /-- The syntax errors of the text. -/
  errors : List SyntaxError
  /-- What the step has written. -/
  output : String

/-- The store, and how many texts have been read. -/
structure Session where
  store : Store
  texts : Nat

namespace Session

/-- A session on a new store with the given streams. -/
def start (console : Console) : Session :=
  ⟨.initial console, 0⟩

/-- The machine. -/
def machine (session : Session) : Machine :=
  session.store.machine

/-- Takes the output that has been written. -/
def takeOutput (session : Session) : String × Session :=
  let ⟨⟨machine, handles⟩, texts⟩ := session
  let (output, console) := machine.console.takeOutput
  (output, ⟨⟨{ machine with console }, handles⟩, texts⟩)

/-- Runs a plan on the store, as a step. -/
def perform (fuel : Nat) (session : Session) (errors : List SyntaxError) (plan : Plan Value) :
    Option (Report × Session) :=
  let ended (ending : Ending) (store : Store) : Option (Report × Session) :=
    let (output, session) := { session with store }.takeOutput
    some (⟨ending, errors, output⟩, session)
  match plan.onStore fuel session.store with
  | .done value store => ended (.value value) store
  | .failed (.error error) store => ended (.error error) store
  | .failed .crash store => ended .crashed store
  | .outOfFuel => none

/-- Parses a text and runs its program. A program with syntax errors is run only if it is
forced to. -/
def runText (fuel : Nat) (force : Bool) (session : Session) (text : String) :
    Option (Report × Session) :=
  let source : Source := ⟨text, session.texts⟩
  let session := { session with texts := session.texts + 1 }
  let parsed := source.parse
  if parsed.errors.isEmpty || force then
    session.perform fuel parsed.errors (parsed.program.plan fuel)
  else some (⟨.refused, parsed.errors, ""⟩, session)

/-- Calls a function with the given arguments. Lists among them may be new. -/
def call (fuel : Nat) (session : Session) (closure : Closure) (arguments : List Value) :
    Option (Report × Session) :=
  let store := session.store
  let store := { store with handles := store.handles.adopt store.machine.heap }
  { session with store }.perform fuel [] (Plan.callFunction fuel closure arguments)

end Session

/-- Parses and runs a text on a store of its own. -/
def runText (fuel : Nat) (force : Bool) (console : Console) (text : String) :
    Option (Report × Session) :=
  (Session.start console).runText fuel force text

end Betty
