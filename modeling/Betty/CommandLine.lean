import Betty.CommandLine.Editor
import Betty.CommandLine.Options

/-!
# The command line

What the program does with its arguments, the files it can read and its input: what it
writes, and the exit code it ends with.
-/

namespace Betty

/-- Why a file cannot be read. -/
inductive FileFault where
  | notFound
  | isDirectory
  | notDirectory
  | notText
  | nameTooLong
  | other (reason : String)
deriving DecidableEq, Repr

/-- The wording of a file fault. -/
def FileFault.message : FileFault → String
  | notFound => "No such file or directory (os error 2)"
  | isDirectory => "Is a directory (os error 21)"
  | notDirectory => "Not a directory (os error 20)"
  | notText => StreamFault.notUtf8.message
  | nameTooLong => "File name too long (os error 36)"
  | other reason => reason

/-- How the program ends. -/
structure Exit where
  code : Nat
  output : String
  errors : String

/-- The name and version of the program. -/
def versionText : String := "betty 0.1.0\n"

/-- The explanation of the options. -/
def usageText : String :=
  "Interpreter for the Betty scripting language\n\n" ++
  "Usage: betty [OPTIONS] [SCRIPT]\n" ++
  "       betty complete <SHELL>\n\n" ++
  "Without a script the program editor is started.\n\n" ++
  "Options:\n" ++
  "      --color <WHEN>   auto, always or never [default: auto]\n" ++
  "  -v, --verbose        Report what is being done\n" ++
  "      --check          Parse only and report syntax errors\n" ++
  "      --print-result   Print the value returned by main unless it is none\n" ++
  "  -h, --help           Print help\n" ++
  "  -V, --version        Print version\n"

/-- The words that a shell can offer after the name of the program. -/
def completionWords : String :=
  "--color --verbose --check --print-result --help --version complete help"

/-- Completions for a shell. -/
def Shell.completions : Shell → String
  | bash => "complete -o default -W \"" ++ completionWords ++ "\" betty\n"
  | zsh => "#compdef betty\n_arguments '*:argument:(" ++ completionWords ++ ")' '*:script:_files'\n"
  | fish => "complete -c betty -a \"" ++ completionWords ++ "\"\n"
  | elvish =>
    "set edit:completion:arg-completer[betty] = \x7b|@words| put " ++ completionWords ++ " \x7d\n"
  | powershell =>
    "Register-ArgumentCompleter -Native -CommandName betty -ScriptBlock \x7b '" ++
      completionWords ++ "' -split ' ' \x7d\n"

/-- How the program ends when its arguments cannot be followed. -/
def UsageFault.exit : UsageFault → Exit
  | helpAsked => ⟨0, usageText, ""⟩
  | versionAsked => ⟨0, versionText, ""⟩
  | fault => ⟨2, "", "error: " ++ fault.message ++ "\n"⟩

/-- Is colour used? The choice `auto` uses it only on an interactive terminal. -/
def ColorChoice.enabled (interactive : Bool) : ColorChoice → Bool
  | always => true
  | never => false
  | auto => interactive

/-- The settings that the options ask for. -/
def Options.settings (interactive : Bool) (options : Options) : Settings :=
  ⟨options.color.enabled interactive, options.check, options.printResult⟩

/-- The exit code of the process. -/
def Verdict.code : Verdict → Nat
  | good => 0
  | bad => 1
  | crashed => 101

/-- How the program ends after it has used the terminal. -/
def Terminal.exit (terminal : Terminal) (verdict : Verdict) : Exit :=
  ⟨verdict.code, terminal.output, terminal.errors⟩

/-- Does what the options ask for, unless this does not end within the fuel. `read` reads a
file. -/
def Options.run (fuel : Nat) (interactive : Bool) (read : String → Except FileFault String)
    (input : List UInt8) (options : Options) : Option Exit :=
  let settings := options.settings interactive
  let terminal := Terminal.ofInput input
  match options.complete, options.script with
  | some shell, _ => some ⟨0, shell.completions, ""⟩
  | none, some script =>
    match read script with
    | .ok source =>
      (runSource fuel settings source script terminal).map fun (verdict, terminal) =>
        terminal.exit verdict
    | .error fault =>
      let message := "Failed to read " ++ script ++ ": " ++ fault.message
      some ((terminal.complain (settings.alert message)).exit .bad)
  | none, none =>
    (runEditor fuel settings terminal).map fun (verdict, terminal) => terminal.exit verdict

/-- Can the program in a text read input? It does so only through the intrinsic function
`input`. -/
def mayReadInput (source : String) : Bool :=
  (tokenize source).any fun token =>
    match token.lexeme with
    | .identifier name => Intrinsic.ofName? name = some .input
    | _ => false

/-- The whole program: its arguments, the files it can read and its input. -/
def runCommandLine (fuel : Nat) (interactive : Bool) (arguments : List String)
    (read : String → Except FileFault String) (input : List UInt8) : Option Exit :=
  match Options.parse arguments with
  | .ok options => options.run fuel interactive read input
  | .error fault => some fault.exit

end Betty
