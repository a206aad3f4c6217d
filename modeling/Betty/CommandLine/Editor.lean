import Betty.CommandLine.Script
import Betty.Text.Blank

/-!
# The program editor

Without a script the program is an editor that reads its input line by line. A line is
one of five commands or becomes part of the program. A program that is run reads its own
input from the lines that follow. If it does not end, nor does the editor, and if it
crashes, so does the editor.

## Main definitions

* `Editor`: the lines of the program and the terminal.
* `Editor.command`: what a command does.
* `runEditor`: reads lines until the input ends or the editor is left.
-/

namespace Betty

/-- The lines of the program in the editor, the terminal, and whether the editor has crashed
with a program that it has run. -/
structure Editor where
  lines : List String
  terminal : Terminal
  crashed : Bool

/-- The commands of the editor. -/
inductive EditorCommand where
  | help | list | run | clear | exit
deriving DecidableEq, Repr

/-- The command that a line gives, if it gives one: blanks around it and the case of
letters do not count. -/
def EditorCommand.ofLine? (line : String) : Option EditorCommand :=
  match String.ofList ((Text.trimBlanks line.toList).map Char.toLower) with
  | ":help" => some help
  | ":list" => some list
  | ":run" => some run
  | ":clear" => some clear
  | ":exit" => some exit
  | _ => none

namespace Editor

/-- The explanation of the commands. -/
def helpText : String :=
  "Program Editor Commands:\n" ++
  "  :help  - Show this help\n" ++
  "  :list  - List current program\n" ++
  "  :run   - Execute the current program\n" ++
  "  :clear - Clear the current program\n" ++
  "  :exit  - Exit the program editor\n" ++
  "Enter your program line by line. Use commands to manage the program.\n"

/-- What the program is called in diagnostics. -/
def fileName : String := "<editor>"

/-- The program as one text. -/
def source (editor : Editor) : String :=
  "\n".intercalate editor.lines

/-- The numbered lines of the program. -/
def listing (editor : Editor) : String :=
  if editor.lines.isEmpty then "Program is empty.\n"
  else
    "Current Program:\n" ++ String.join (editor.lines.zipIdx.map fun (line, index) =>
      toString (index + 1) ++ ": " ++ line ++ "\n")

/-- Writes to the output. -/
def print (editor : Editor) (text : String) : Editor :=
  { editor with terminal := editor.terminal.print text }

/-- The editor before the first line. -/
def start (terminal : Terminal) : Editor :=
  ⟨[], terminal.print "Betty\nType \":help\" for more information.\n", false⟩

/-- Runs the program, unless this does not end within the fuel. -/
def runProgram (fuel : Nat) (settings : Settings) (editor : Editor) : Option Editor :=
  if editor.lines.isEmpty then some (editor.print "No program to run.\n")
  else
    let editor := editor.print "--- Program Output ---\n"
    match runSource fuel settings editor.source fileName editor.terminal with
    | none => none
    | some (.good, terminal) =>
      some ({ editor with terminal }.print "--- Program Finished ---\n")
    | some (.bad, terminal) => some { editor with terminal }
    | some (.crashed, terminal) => some { editor with terminal, crashed := true }

/-- Follows a command. Leaving the editor is up to the caller. -/
def command (fuel : Nat) (settings : Settings) (editor : Editor) :
    EditorCommand → Option Editor
  | .help => some (editor.print helpText)
  | .list => some (editor.print editor.listing)
  | .run => editor.runProgram fuel settings
  | .clear => some ({ editor with lines := [] }.print "Program cleared.\n")
  | .exit => some editor

/-- Takes a line that is no command into the program, unless it is blank. -/
def addLine (editor : Editor) (line : String) : Editor :=
  if (Text.trimBlanks line.toList).isEmpty then editor
  else { editor with lines := editor.lines ++ [line] }

/-- What a line does: a command is followed, and any other line is added to the program. -/
def step (fuel : Nat) (settings : Settings) (editor : Editor) (line : String) : Option Editor :=
  match EditorCommand.ofLine? line with
  | some command => editor.command fuel settings command
  | none => some (editor.addLine line)

/-- Reads lines until the input ends, a line cannot be read, the editor is left or it
crashes. There is no end if a program that is run has none. `rounds` bounds the number of
lines. -/
def loop (fuel : Nat) (settings : Settings) : Nat → Editor → Option Editor
  | 0, editor => some editor
  | rounds + 1, editor =>
    let editor := editor.print "> "
    if editor.terminal.input.isEmpty then some editor
    else
      match Console.readLine (.ofInput editor.terminal.input) with
      | .done text console =>
        let line := stripLineEnd text
        let terminal := { editor.terminal with input := console.input }
        let editor := { editor with terminal }
        if EditorCommand.ofLine? line = some .exit then some editor
        else
          match editor.step fuel settings line with
          | none => none
          | some editor => if editor.crashed then some editor else loop fuel settings rounds editor
      | .failed fault console =>
        let terminal := { editor.terminal with input := console.input }
        let message := "Error reading input: " ++ fault.detail
        some { editor with terminal := terminal.complain (settings.alert message) }
      | .outOfFuel => none

end Editor

/-- The program editor. Every round but the last one takes a line of the input. -/
def runEditor (fuel : Nat) (settings : Settings) (terminal : Terminal) :
    Option (Verdict × Terminal) :=
  match Editor.loop fuel settings (terminal.input.length + 1) (.start terminal) with
  | none => none
  | some editor =>
    if editor.crashed then some (.crashed, editor.terminal)
    else some (.good, editor.terminal.print "Exiting Betty Program Editor.\n")

end Betty
