import Betty.CommandLine

/-!
# The program

Connects the command line to the files and streams of the operating system. The input is
read only if it can be needed: by the program editor, or by a script that can ask for it.
-/

namespace Betty

/-- Reads a file as text. -/
def readScript (path : String) : IO (Except FileFault String) := do
  try
    let bytes ← IO.FS.readBinFile path
    match String.fromUTF8? bytes with
    | some text => return .ok text
    | none => return .error .notText
  catch
    | .noFileOrDirectory .. => return .error .notFound
    | .inappropriateType .. => return .error .isDirectory
    | error => return .error (.other (toString error))

/-- Reads a stream to its end, after the bytes read already. -/
partial def readAll (stream : IO.FS.Stream) (bytes : ByteArray) : IO ByteArray := do
  let chunk ← stream.read 65536
  if chunk.isEmpty then return bytes else readAll stream (bytes ++ chunk)

/-- Does what the options ask for. -/
def perform (interactive : Bool) (options : Options) : IO (Option Exit) := do
  let script ←
    match options.complete, options.script with
    | none, some path => readScript path
    | _, _ => pure (.ok "")
  let needed :=
    match options.complete, options.script, script with
    | some _, _, _ => false
    | none, none, _ => true
    | none, some _, .ok source => !options.check && mayReadInput source
    | none, some _, .error _ => false
  let input ← if needed then readAll (← IO.getStdin) .empty else pure .empty
  return options.run ampleFuel interactive (fun _ => script) input.toList

end Betty

/-- Runs the program with its arguments. -/
def main (arguments : List String) : IO UInt32 := do
  let output ← IO.getStdout
  let errors ← IO.getStderr
  let interactive := (← output.isTty) && (← errors.isTty)
  let exit ←
    match Betty.Options.parse arguments with
    | .ok options => Betty.perform interactive options
    | .error fault => pure (some fault.exit)
  let some exit := exit | throw (IO.userError "out of fuel")
  output.putStr exit.output
  output.flush
  errors.putStr exit.errors
  return exit.code.toUInt32
