import Betty.Diagnostic

/-!
# Writing diagnostics

A diagnostic is written as a headline, the source lines that its labels point into,
each with a caret under the column of its label, and the notes. With colour, the parts
of this layout are wrapped in the sequences of a palette.

## Main definitions

* `sourceLine?`: a line of a text.
* `Palette`: the ways to set a text off from the rest.
* `Renderer.diagnostic`: one diagnostic.
* `renderDiagnostics`: all diagnostics and a summary.
-/

namespace Betty

/-! ### Lines -/

/-- The lines of a text. `read` holds the characters of the line read so far, the latest
first. A line ends at a line feed, which takes a carriage return before it along; the
last line need not end, and there is no line after the last line feed. -/
def linesFrom (read : List Char) : List Char → List (List Char)
  | [] => if read.isEmpty then [] else [read.reverse]
  | c :: rest =>
    if c = '\n' then
      let line :=
        match read with
        | '\r' :: before => before
        | _ => read
      line.reverse :: linesFrom [] rest
    else linesFrom (c :: read) rest

/-- The lines of a text. -/
def textLines (text : String) : List String :=
  (linesFrom [] text.toList).map String.ofList

/-- The line with the given number, counted from one. -/
def sourceLine? (text : String) (line : Nat) : Option String :=
  if line = 0 then none else (textLines text)[line - 1]?

/-! ### Layout -/

/-- A row of `n` blanks. -/
def blanks (n : Nat) : String :=
  String.ofList (List.replicate n ' ')

/-- Puts blanks before a text until it has the given number of characters. -/
def alignRight (width : Nat) (text : String) : String :=
  blanks (width - text.length) ++ text

/-- A way to set a text off from the rest: what is written before it and after it. -/
structure Paint where
  before : String
  after : String

/-- A text between the two sequences of a paint. -/
def Paint.on (paint : Paint) (text : String) : String :=
  paint.before ++ text ++ paint.after

/-- The paints that diagnostics use. -/
structure Palette where
  red : Paint
  blue : Paint
  bold : Paint

/-- The escape sequence that sets or resets a display attribute of a terminal. -/
def escapeSequence (code : String) : String :=
  "\x1b[" ++ code ++ "m"

/-- The paints of a terminal. -/
def Palette.terminal : Palette where
  red := ⟨escapeSequence "31", escapeSequence "39"⟩
  blue := ⟨escapeSequence "34", escapeSequence "39"⟩
  bold := ⟨escapeSequence "1", escapeSequence "0"⟩

/-- The paints at hand, the source text that diagnostics refer to, the name of its file,
and whether colour is used. -/
structure Renderer where
  palette : Palette
  source : String
  file : String
  color : Bool

namespace Renderer

/-- A text in red. -/
def red (r : Renderer) (text : String) : String :=
  if r.color then r.palette.red.on text else text

/-- A text in blue. -/
def blue (r : Renderer) (text : String) : String :=
  if r.color then r.palette.blue.on text else text

/-- A text in bold. -/
def bold (r : Renderer) (text : String) : String :=
  if r.color then r.palette.bold.on text else text

/-- The headline of a diagnostic. -/
def headline (r : Renderer) (d : Diagnostic) : String :=
  let code :=
    match d.code with
    | some code => "[" ++ code ++ "]"
    | none => ""
  r.bold (r.red "error") ++ code ++ ": " ++ r.bold d.message ++ "\n"

/-- A line without a number. -/
def margin (r : Renderer) (width : Nat) : String :=
  blanks width ++ " " ++ r.blue "|"

/-- The line that a label points into, and the caret under it. A label outside the text
is left out. -/
def excerpt (r : Renderer) (width : Nat) (label : Label) : String :=
  match sourceLine? r.source label.position.line with
  | none => ""
  | some content =>
    let number := alignRight width (r.blue (toString label.position.line))
    let caret := if label.message.isEmpty then "^" else "^ " ++ label.message
    number ++ " " ++ r.blue "|" ++ " " ++ content ++ "\n" ++
      r.margin width ++ " " ++ blanks (label.position.column - 1) ++ r.red caret ++ "\n"

/-- The labels whose place is known, in the order of the text. -/
def shownLabels (d : Diagnostic) : List Label :=
  (d.labels.filter fun label => label.position.isKnown).mergeSort fun a b =>
    a.position.le b.position

/-- The width of the line numbers of some labels, and one blank before them. -/
def numberWidth (labels : List Label) : Nat :=
  (labels.map fun label => (toString label.position.line).length).foldl max 0 + 1

/-- The excerpts of a diagnostic, under the place of the first one. -/
def excerpts (r : Renderer) (d : Diagnostic) : String :=
  match shownLabels d with
  | [] => ""
  | first :: rest =>
    let labels := first :: rest
    let width := numberWidth labels
    "  " ++ r.blue "-->" ++ " " ++ r.file ++ ":" ++ toString first.position.line ++ ":" ++
      toString first.position.column ++ "\n" ++ r.margin width ++ "\n" ++
      String.join (labels.map (r.excerpt width)) ++ r.margin width ++ "\n"

/-- A diagnostic. -/
def diagnostic (r : Renderer) (d : Diagnostic) : String :=
  r.headline d ++ r.excerpts d ++
    String.join (d.notes.map fun note => "  " ++ r.blue "=" ++ " " ++ note ++ "\n")

end Renderer

/-- How many errors have been reported, if there are any. -/
def errorSummary (count : Nat) : String :=
  if count = 0 then ""
  else
    "error: aborting due to " ++ toString count ++ " error" ++
      (if count = 1 then "" else "s") ++ "\n"

/-- Diagnostics, one after another, and their number. -/
def renderDiagnostics (palette : Palette) (source file : String) (diagnostics : List Diagnostic)
    (color : Bool) : String :=
  let r : Renderer := ⟨palette, source, file, color⟩
  String.join (diagnostics.map fun d => r.diagnostic d ++ "\n") ++ errorSummary diagnostics.length

end Betty
