import Betty.Text.Blank
import Betty.Text.Letter
import Betty.Text.Numeral
import Betty.Token

/-!
# Reading tokens from a source text

A `Cursor` is the text that is still to be read and its position. Reading skips
blanks and comments, finds the lexeme at the front of the rest together with the
number of characters it takes, and moves on by that number. Reading never fails:
text that is no lexeme becomes an error lexeme and is passed over.

## Main definitions

* `lexemeOf`: the lexeme at the front of a text, and its length.
* `Cursor.next`: the next token and the cursor after it.
* `Cursor.peek`: the next token alone.
* `tokenize`: all tokens of a text.
-/

namespace Betty

/-! ### Blanks and comments -/

/-- The number of characters up to the first one that belongs to a token. A comment
runs from `#` to the end of its line. -/
def triviaLength (inComment : Bool) : List Char → Nat
  | [] => 0
  | c :: rest =>
    if inComment then triviaLength (c ≠ '\n') rest + 1
    else if Text.isBlank c then triviaLength false rest + 1
    else if c = '#' then triviaLength true rest + 1
    else 0

/-! ### Names -/

/-- May a name start with this character? -/
def startsName (c : Char) : Bool :=
  Text.isLetter c || c = '_'

/-- May this character stand in a name? -/
def continuesName (c : Char) : Bool :=
  Text.isLetter c || Text.isNumeral c || c = '_'

/-- The lower-case form of a letter of a reserved word. Besides the capitals of ASCII
only the Kelvin sign has one among the letters of the reserved words. -/
def foldLetter (c : Char) : Char :=
  if c = '\u212a' then 'k' else c.toLower

/-- A name, unless it is a reserved word in letters of either case. -/
def nameLexeme (name : List Char) : Lexeme :=
  match Keyword.ofSpelling? (String.ofList (name.map foldLetter)) with
  | some word => .keyword word
  | none => .identifier (String.ofList name)

/-! ### Numerals -/

/-- The digits and points of the numeral at the front of a text. A point that another
point follows ends the numeral, so that `1..5` is a range. -/
def numeralRun : List Char → List Char
  | [] => []
  | c :: rest =>
    if c.isDigit then c :: numeralRun rest
    else if c = '.' && rest.head? ≠ some '.' then c :: numeralRun rest
    else []

/-- What is noted while a numeral is read: has there been a point, and has there been one
after another? -/
structure PointFlags where
  seen : Bool
  malformed : Bool

/-- The flags before the first character. -/
def PointFlags.initial : PointFlags := ⟨false, false⟩

/-- The flags after one more character. -/
def PointFlags.note (flags : PointFlags) (c : Char) : PointFlags :=
  if c = '.' then ⟨true, flags.malformed || flags.seen⟩ else flags

/-- The lexeme spelled by a row of digits and points. A leading point reads as if a
zero stood before it. -/
def numeralLexeme (run : List Char) : Lexeme :=
  let spelled := if run.head? = some '.' then '0' :: run else run
  if (run.foldl PointFlags.note .initial).malformed then .error .multipleDots
  else
    match Number.ofChars? spelled with
    | some value => .number value
    | none => .error (.invalidNumeral (String.ofList spelled))

/-! ### Quoted text -/

/-- The character that an escaped character stands for. -/
def escape? : Char → Option Char
  | 'n' => some '\n'
  | 't' => some '\t'
  | '"' => some '"'
  | '\'' => some '\''
  | '\\' => some '\\'
  | '0' => some (Char.ofNat 0)
  | _ => none

/-- Reads a string after its opening quote: the lexeme and the number of characters
up to and including the closing quote. The arguments are the characters read so far,
the latest first, their number, and the first unknown escape. An unknown escape
spoils the string but does not end it. -/
def stringLexeme (read : List Char) (length : Nat) (bad : Option Char) :
    List Char → Lexeme × Nat
  | [] => (.error .unterminatedString, length)
  | '"' :: _ =>
    match bad with
    | none => (.text (String.ofList read.reverse), length + 1)
    | some escaped => (.error (.unknownEscape escaped), length + 1)
  | '\\' :: [] => (.error .unterminatedString, length + 1)
  | '\\' :: escaped :: rest =>
    match escape? escaped with
    | some c => stringLexeme (c :: read) (length + 2) bad rest
    | none => stringLexeme read (length + 2) (bad <|> some escaped) rest
  | c :: rest => stringLexeme (c :: read) (length + 1) bad rest

/-- The lexeme of the character `value` when `length` characters have been read since
the opening quote and `rest` follows: a closing quote must come next. -/
def closeCharacter (value : Char) (length : Nat) (rest : List Char) : Lexeme × Nat :=
  if rest.head? = some '\'' then (.character value, length + 1)
  else (.error .unterminatedCharacter, length)

/-- Reads a character after its opening quote: the lexeme and the number of characters
that it takes. -/
def characterLexeme : List Char → Lexeme × Nat
  | [] => (.error .unterminatedCharacter, 0)
  | '\'' :: _ => (.error .emptyCharacter, 1)
  | '\\' :: [] => (.error .unterminatedCharacter, 1)
  | '\\' :: escaped :: rest =>
    match escape? escaped with
    | some c => closeCharacter c 2 rest
    | none => (.error (.unknownEscape escaped), if rest.head? = some '\'' then 3 else 2)
  | c :: rest => closeCharacter c 1 rest

/-! ### Signs -/

/-- The longest sign at the front of a text, and its length. -/
def longestSymbol? : List Char → Option (Symbol × Nat)
  | a :: b :: c :: _ =>
    ((Symbol.ofThree? a b c).map (·, 3)) <|> ((Symbol.ofTwo? a b).map (·, 2)) <|>
      ((Symbol.ofOne? a).map (·, 1))
  | [a, b] => ((Symbol.ofTwo? a b).map (·, 2)) <|> ((Symbol.ofOne? a).map (·, 1))
  | [a] => (Symbol.ofOne? a).map (·, 1)
  | [] => none

/-! ### Lexemes -/

/-- Does a numeral start here? -/
def startsNumeral (c : Char) (rest : List Char) : Bool :=
  c.isDigit || (c = '.' && rest.head?.any Char.isDigit)

/-- The lexeme at the front of a text that starts with a token, and the number of
characters it takes. -/
def lexemeOf : List Char → Lexeme × Nat
  | [] => (.endOfInput, 0)
  | c :: rest =>
    if startsName c then
      let name := c :: rest.takeWhile continuesName
      (nameLexeme name, name.length)
    else if startsNumeral c rest then
      let run := numeralRun (c :: rest)
      (numeralLexeme run, run.length)
    else if c = '"' then
      stringLexeme [] 1 none rest
    else if c = '\'' then
      let (lexeme, length) := characterLexeme rest
      (lexeme, length + 1)
    else
      match longestSymbol? (c :: rest) with
      | some (sign, length) => (.symbol sign, length)
      | none => (.error (.unknownCharacter c), 1)

/-! ### Cursors -/

/-- The rest of a source text, and the position of its first character. -/
structure Cursor where
  rest : List Char
  position : Position

namespace Cursor

/-- The cursor at the start of a text. -/
def ofText (source : String) : Cursor :=
  ⟨source.toList, .start⟩

/-- The cursor `n` characters further on. -/
def advance (cursor : Cursor) (n : Nat) : Cursor :=
  ⟨cursor.rest.drop n, cursor.position.afterAll (cursor.rest.take n)⟩

/-- The cursor after the blanks and comments at the front. -/
def skipTrivia (cursor : Cursor) : Cursor :=
  cursor.advance (triviaLength false cursor.rest)

/-- The next token, and the cursor after it. At the end of the text the token that
marks it comes again and again. -/
def next (cursor : Cursor) : Token × Cursor :=
  let start := cursor.skipTrivia
  let (lexeme, length) := lexemeOf start.rest
  (⟨lexeme, start.position⟩, start.advance length)

/-- The next token, without moving on. -/
def peek (cursor : Cursor) : Token :=
  cursor.next.1

/-- At most `fuel` tokens, ending with the one that marks the end of the text. -/
def tokens : Nat → Cursor → List Token
  | 0, _ => []
  | fuel + 1, cursor =>
    let (token, rest) := cursor.next
    if token.lexeme.isEnd then [token] else token :: rest.tokens fuel

end Cursor

/-- All tokens of a text, the last one marking its end. Each of the others takes at
least one character. -/
def tokenize (source : String) : List Token :=
  let cursor := Cursor.ofText source
  cursor.tokens (cursor.rest.length + 1)

end Betty
