import Betty.Fault
import Betty.Outcome

/-!
# Input and output of a program

A program reads lines from a stream of bytes and writes text. The output may have
room for a limited number of bytes; a text that does not fit is not written at all.
-/

namespace Betty

/-- The streams of a program. -/
structure Console where
  /-- The bytes not yet read. -/
  input : List UInt8
  /-- Everything written so far. -/
  output : String
  /-- The number of bytes that can be written in all, if there is a limit. -/
  capacity : Option Nat

namespace Console

/-- Streams with the given input and without a limit on the output. -/
def ofInput (input : List UInt8) : Console := ⟨input, "", none⟩

instance : Inhabited Console := ⟨ofInput []⟩

/-- Is there room for a text? Nothing always fits. -/
def fits (console : Console) (text : String) : Bool :=
  match console.capacity with
  | none => true
  | some capacity =>
    text.isEmpty || console.output.utf8ByteSize + text.utf8ByteSize ≤ capacity

/-- Writes a text, as a whole or not at all. -/
def write (text : String) : Action Fault Console Unit :=
  fun console =>
    if console.fits text then .done () { console with output := console.output ++ text }
    else .failed (.stream .outputFull) console

/-- The bytes of the next line with the line feed that ends it, and the rest. -/
def splitLine (bytes : List UInt8) : List UInt8 × List UInt8 :=
  let (line, rest) := bytes.span (· ≠ 10)
  (line ++ rest.take 1, rest.drop 1)

/-- Reads a line with its end. At the end of the input it is empty. A line that is not
valid text is passed over. -/
def readLine : Action Fault Console String :=
  fun console =>
    let (line, rest) := splitLine console.input
    let console := { console with input := rest }
    match String.fromUTF8? (ByteArray.mk line.toArray) with
    | some text => .done text console
    | none => .failed (.stream .notUtf8) console

/-- Takes what has been written. The room that it took up stays used. -/
def takeOutput (console : Console) : String × Console :=
  (console.output,
    { console with
      output := ""
      capacity := console.capacity.map (· - console.output.utf8ByteSize) })

end Console

/-- A text without the line feeds and carriage returns at its end. -/
def stripLineEnd (text : String) : String :=
  String.ofList (text.toList.reverse.dropWhile fun c => c = '\n' || c = '\r').reverse

end Betty
