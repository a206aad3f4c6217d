import Betty.Text.Resemblance

/-!
# Options of the command line

The program is called with the name of a script, with options before or after it, or
with the command `complete`, which writes completions for a shell. Arguments after `--`
are names even if they look like options.

The arguments are looked at from left to right. The value of `--color` and the name of the
script are checked when the next argument that needs them to be complete is met, or at
the end, so an argument that cannot be understood at all is reported before them.

## Main definitions

* `Options`: what the arguments ask for.
* `UsageFault`: why they cannot be followed.
* `Options.parse`: reads the arguments.
-/

namespace Betty

/-- When to use colour. -/
inductive ColorChoice where
  | auto | always | never
deriving DecidableEq, Repr

/-- The choice that a word stands for, in letters of either case. -/
def ColorChoice.ofWord? (word : String) : Option ColorChoice :=
  match String.ofList (word.toList.map Char.toLower) with
  | "auto" => some auto
  | "always" => some always
  | "never" => some never
  | _ => none

/-- The shells that completions can be written for. -/
inductive Shell where
  | bash | elvish | fish | powershell | zsh
deriving DecidableEq, Repr

namespace Shell

/-- The name of a shell. -/
def name : Shell → String
  | bash => "bash"
  | elvish => "elvish"
  | fish => "fish"
  | powershell => "powershell"
  | zsh => "zsh"

/-- The shell with the given name. -/
def ofName? (name : String) : Option Shell :=
  [bash, elvish, fish, powershell, zsh].find? fun shell => shell.name = name

end Shell

/-- What the arguments ask for. -/
structure Options where
  script : Option String
  color : ColorChoice
  verbose : Bool
  check : Bool
  printResult : Bool
  complete : Option Shell
deriving DecidableEq, Repr

/-- Why arguments cannot be followed. Being asked for help or for the version counts as a
reason too, since nothing else is done then. -/
inductive UsageFault where
  | helpAsked
  | versionAsked
  | unknownArgument (argument : String)
  | unknownCommand (name : String)
  | repeatedOption (name : String)
  | missingValue (name : String)
  | emptyValue (name : String)
  | unneededValue (name : String)
  | unknownColor (word : String)
  | unknownShell (name : String)
  | missingShell
deriving DecidableEq, Repr

namespace Options

/-- An argument that has been met but not checked yet. -/
inductive Pending where
  | nothing
  /-- The option `--color`, with its value if that has been met. -/
  | color (word : Option String)
  | script (name : String)
deriving DecidableEq, Repr

/-- What has been gathered from the arguments so far. -/
structure Gathered where
  color : Option ColorChoice
  verbose : Bool
  check : Bool
  printResult : Bool
  script : Option String
  pending : Pending
  /-- Has a name of a script been met? -/
  named : Bool

/-- What is gathered before the first argument. -/
def Gathered.start : Gathered := ⟨none, false, false, false, none, .nothing, false⟩

/-- Gives `--color` a value. -/
def setColor (g : Gathered) (word : String) : Except UsageFault Gathered :=
  if g.color.isSome then .error (.repeatedOption "--color")
  else
    match ColorChoice.ofWord? word with
    | some choice => .ok { g with color := some choice }
    | none => .error (.unknownColor word)

/-- Checks the argument that is pending. -/
def settle (g : Gathered) : Except UsageFault Gathered :=
  match g.pending with
  | .nothing => .ok g
  | .color none => .error (.missingValue "--color")
  | .color (some word) => setColor { g with pending := .nothing } word
  | .script name =>
    if name.isEmpty then .error (.emptyValue "script")
    else .ok { g with pending := .nothing, script := some name }

/-- The options that take no value. -/
inductive Flag where
  | verbose | check | printResult | help | version
deriving DecidableEq, Repr

/-- The flag with the given long name. -/
def Flag.ofName? : String → Option Flag
  | "verbose" => some verbose
  | "check" => some check
  | "print-result" => some printResult
  | "help" => some help
  | "version" => some version
  | _ => none

/-- The flag with the given letter. -/
def Flag.ofLetter? : Char → Option Flag
  | 'v' => some verbose
  | 'h' => some help
  | 'V' => some version
  | _ => none

/-- Follows a flag. Each can be given once. -/
def setFlag (g : Gathered) (flag : Flag) : Except UsageFault Gathered := do
  let g ← settle g
  match flag with
  | .verbose =>
    if g.verbose then .error (.repeatedOption "--verbose") else .ok { g with verbose := true }
  | .check =>
    if g.check then .error (.repeatedOption "--check") else .ok { g with check := true }
  | .printResult =>
    if g.printResult then .error (.repeatedOption "--print-result")
    else .ok { g with printResult := true }
  | .help => .error .helpAsked
  | .version => .error .versionAsked

/-- Follows a row of letters after a single dash. -/
def setLetters (g : Gathered) : List Char → Except UsageFault Gathered
  | [] => .ok g
  | letter :: rest =>
    match Flag.ofLetter? letter with
    | some flag => do
      let g ← setFlag g flag
      setLetters g rest
    | none => .error (.unknownArgument ("-" ++ letter.toString))

/-- The name of a long option, and the value after its equals sign. -/
def splitLong (body : List Char) : String × Option String :=
  let name := String.ofList (body.takeWhile (· ≠ '='))
  match body.dropWhile (· ≠ '=') with
  | [] => (name, none)
  | _ :: value => (name, some (String.ofList value))

/-- Follows an option with a long name, without its dashes. -/
def setLong (g : Gathered) (body : List Char) : Except UsageFault Gathered :=
  match splitLong body with
  | ("color", some word) => do
    let g ← settle g
    setColor g word
  | ("color", none) => do
    let g ← settle g
    .ok { g with pending := .color none }
  | (name, value) =>
    match Flag.ofName? name, value with
    | some flag, none => setFlag g flag
    | some _, some _ => .error (.unneededValue ("--" ++ name))
    | none, _ => .error (.unknownArgument ("--" ++ name))

/-- The commands that can stand in the place of a script. -/
def commandNames : List String := ["complete", "help"]

/-- The fault of a name for which there is no room. It is taken for a misspelled command if
it resembles one; after `--` the exact name of a command is no command either. -/
def surplusFault (plain : Bool) (name : String) : UsageFault :=
  if plain && commandNames.contains name then .unknownArgument name
  else if commandNames.any fun command => Text.resembles name.toList command.toList then
    .unknownCommand name
  else .unknownArgument name

/-- Takes a name, which is `plain` after `--`. There is room for one script. -/
def setName (g : Gathered) (plain : Bool) (name : String) : Except UsageFault Gathered :=
  if g.named then .error (surplusFault plain name)
  else do
    let g ← settle g
    .ok { g with pending := .script name, named := true }

/-- What the arguments ask for, once all of them have been gathered. -/
def finish (g : Gathered) (complete : Option Shell) : Except UsageFault Options := do
  let g ← settle g
  .ok ⟨g.script, g.color.getD .auto, g.verbose, g.check, g.printResult, complete⟩

/-- The argument of the command `complete`. `found` is the name met so far, and after `--`
the arguments are `plain` names. -/
def shellArgument (found : Option String) (plain : Bool) : List String → Except UsageFault Shell
  | [] =>
    match found with
    | none => .error .missingShell
    | some name =>
      match Shell.ofName? name with
      | some shell => .ok shell
      | none => .error (.unknownShell name)
  | argument :: rest =>
    match plain, argument.toList with
    | false, ['-', '-'] => shellArgument found true rest
    | false, '-' :: '-' :: body =>
      match splitLong body with
      | ("help", none) => checked .helpAsked
      | ("help", some _) => .error (.unneededValue "--help")
      | _ => .error (.unknownArgument argument)
    | false, '-' :: letter :: _ =>
      if letter = 'h' then checked .helpAsked else .error (.unknownArgument argument)
    | _, _ =>
      if found.isSome then .error (.unknownArgument argument)
      else shellArgument (some argument) plain rest
where
  /-- Reports the fault, unless the name met so far has one of its own. -/
  checked (fault : UsageFault) : Except UsageFault Shell :=
    match found with
    | some name => if (Shell.ofName? name).isSome then .error fault else .error (.unknownShell name)
    | none => .error fault

/-- Follows the arguments after `--`. -/
def gatherNames (g : Gathered) : List String → Except UsageFault Options
  | [] => finish g none
  | argument :: rest => do
    let g ← setName g true argument
    gatherNames g rest

/-- The outcome of the command `help`, which takes the name of at most one command. -/
def helpFault : List String → UsageFault
  | [] => .helpAsked
  | name :: rest =>
    if commandNames.contains name then
      match rest with
      | [] => .helpAsked
      | other :: _ => .unknownCommand other
    else .unknownCommand name

/-- Is the value of `--color` still to come? -/
def awaitsColor (g : Gathered) : Bool :=
  g.pending = .color none

/-- Follows the arguments. -/
def gather (g : Gathered) : List String → Except UsageFault Options
  | [] => finish g none
  | argument :: rest =>
    if argument = "complete" && !awaitsColor g then do
      let shell ← shellArgument none false rest
      finish g (some shell)
    else if argument = "help" && !awaitsColor g then .error (helpFault rest)
    else
      match argument.toList with
      | ['-', '-'] => gatherNames g rest
      | '-' :: '-' :: body => do
        let g ← setLong g body
        gather g rest
      | '-' :: letter :: letters => do
        let g ← setLetters g (letter :: letters)
        gather g rest
      | _ =>
        if awaitsColor g then gather { g with pending := .color (some argument) } rest
        else do
          let g ← setName g false argument
          gather g rest

/-- Reads the arguments of the program. -/
def parse (arguments : List String) : Except UsageFault Options :=
  gather .start arguments

end Options

namespace UsageFault

/-- The wording of a usage fault. -/
def message : UsageFault → String
  | helpAsked => ""
  | versionAsked => ""
  | unknownArgument argument => "unexpected argument '" ++ argument ++ "' found"
  | unknownCommand name => "unrecognized command '" ++ name ++ "'"
  | repeatedOption name => "the option '" ++ name ++ "' cannot be used twice"
  | missingValue name => "a value is required for '" ++ name ++ "'"
  | emptyValue name => "the " ++ name ++ " must have a name"
  | unneededValue name => "the option '" ++ name ++ "' takes no value"
  | unknownColor word =>
    "Invalid color choice: " ++ word ++ ". Must be 'auto', 'always', or 'never'"
  | unknownShell name => "there are no completions for the shell '" ++ name ++ "'"
  | missingShell => "the name of a shell is required"

end UsageFault

end Betty
