import Betty.Number.Text
import Betty.Position

/-!
# Tokens

A token is a lexeme with the position of its first character. Text that is no
lexeme of the language becomes an error lexeme that tells what is wrong with it.

## Main definitions

* `Keyword`, `Symbol`: the fixed words and signs of the language.
* `LexicalFault`: what can be wrong with a piece of text.
* `Lexeme`, `Token`.
-/

namespace Betty

/-- The reserved words. -/
inductive Keyword where
  | trueWord | falseWord
  | ifWord | thenWord | elifWord | elseWord
  | forWord | foreachWord | inWord | whileWord | doWord
  | breakWord | continueWord | returnWord
  | funcWord | globalWord
  | switchWord | caseWord | defaultWord | underscore
deriving DecidableEq, Repr

namespace Keyword

/-- The spelling of a reserved word in lower case. -/
def spelling : Keyword → String
  | trueWord => "true"
  | falseWord => "false"
  | ifWord => "if"
  | thenWord => "then"
  | elifWord => "elif"
  | elseWord => "else"
  | forWord => "for"
  | foreachWord => "foreach"
  | inWord => "in"
  | whileWord => "while"
  | doWord => "do"
  | breakWord => "break"
  | continueWord => "continue"
  | returnWord => "return"
  | funcWord => "func"
  | globalWord => "global"
  | switchWord => "switch"
  | caseWord => "case"
  | defaultWord => "default"
  | underscore => "_"

/-- All reserved words. -/
def all : List Keyword :=
  [trueWord, falseWord, ifWord, thenWord, elifWord, elseWord, forWord, foreachWord, inWord,
   whileWord, doWord, breakWord, continueWord, returnWord, funcWord, globalWord, switchWord,
   caseWord, defaultWord, underscore]

/-- The reserved word with the given spelling in lower case. -/
def ofSpelling? (word : String) : Option Keyword :=
  all.find? fun k => k.spelling = word

end Keyword

/-- The operator and punctuation signs. -/
inductive Symbol where
  | plus | minus | star | slash | doubleSlash | percent | caret | bang
  | assign | plusAssign | minusAssign | starAssign | slashAssign | doubleSlashAssign
  | percentAssign | caretAssign
  | increment | decrement
  | equal | notEqual | less | lessEqual | greater | greaterEqual | both | either
  | question | colon | arrow | dotDot
  | leftParen | rightParen | leftBrace | rightBrace | leftBracket | rightBracket
  | comma | semicolon
deriving DecidableEq, Repr

namespace Symbol

/-- The spelling of a sign. -/
def spelling : Symbol → String
  | plus => "+"
  | minus => "-"
  | star => "*"
  | slash => "/"
  | doubleSlash => "//"
  | percent => "%"
  | caret => "^"
  | bang => "!"
  | assign => "="
  | plusAssign => "+="
  | minusAssign => "-="
  | starAssign => "*="
  | slashAssign => "/="
  | doubleSlashAssign => "//="
  | percentAssign => "%="
  | caretAssign => "^="
  | increment => "++"
  | decrement => "--"
  | equal => "=="
  | notEqual => "!="
  | less => "<"
  | lessEqual => "<="
  | greater => ">"
  | greaterEqual => ">="
  | both => "&&"
  | either => "||"
  | question => "?"
  | colon => ":"
  | arrow => "=>"
  | dotDot => ".."
  | leftParen => "("
  | rightParen => ")"
  | leftBrace => "\x7b"
  | rightBrace => "\x7d"
  | leftBracket => "["
  | rightBracket => "]"
  | comma => ","
  | semicolon => ";"

/-- The sign spelled by three characters, if they spell one. -/
def ofThree? : Char → Char → Char → Option Symbol
  | '/', '/', '=' => some doubleSlashAssign
  | _, _, _ => none

/-- The sign spelled by two characters, if they spell one. -/
def ofTwo? : Char → Char → Option Symbol
  | '.', '.' => some dotDot
  | '=', '=' => some equal
  | '!', '=' => some notEqual
  | '<', '=' => some lessEqual
  | '>', '=' => some greaterEqual
  | '&', '&' => some both
  | '|', '|' => some either
  | '+', '+' => some increment
  | '-', '-' => some decrement
  | '+', '=' => some plusAssign
  | '-', '=' => some minusAssign
  | '*', '=' => some starAssign
  | '/', '=' => some slashAssign
  | '%', '=' => some percentAssign
  | '^', '=' => some caretAssign
  | '/', '/' => some doubleSlash
  | '=', '>' => some arrow
  | _, _ => none

/-- The sign spelled by one character, if it spells one. -/
def ofOne? : Char → Option Symbol
  | '+' => some plus
  | '-' => some minus
  | '*' => some star
  | '/' => some slash
  | '%' => some percent
  | '^' => some caret
  | '!' => some bang
  | '=' => some assign
  | '<' => some less
  | '>' => some greater
  | '?' => some question
  | ':' => some colon
  | '(' => some leftParen
  | ')' => some rightParen
  | '\x7b' => some leftBrace
  | '\x7d' => some rightBrace
  | '[' => some leftBracket
  | ']' => some rightBracket
  | ',' => some comma
  | ';' => some semicolon
  | _ => none

end Symbol

/-- What can be wrong with a piece of source text. -/
inductive LexicalFault where
  | multipleDots
  | invalidNumeral (text : String)
  | unterminatedString
  | unterminatedCharacter
  | emptyCharacter
  | unknownEscape (escaped : Char)
  | unknownCharacter (found : Char)
deriving DecidableEq, Repr

/-- The wording of a lexical fault. -/
def LexicalFault.message : LexicalFault → String
  | multipleDots => "Invalid numeric format with multiple dots."
  | invalidNumeral text => "Invalid numeric literal: " ++ text
  | unterminatedString => "Unterminated string literal."
  | unterminatedCharacter => "Unterminated character literal."
  | emptyCharacter => "Empty character literal."
  | unknownEscape escaped => "Unrecognized escape sequence: \\" ++ escaped.toString
  | unknownCharacter found => "Unrecognized character: '" ++ found.toString ++ "'"

/-- A unit of source text. -/
inductive Lexeme where
  | number (value : Float)
  | text (value : String)
  | character (value : Char)
  | identifier (name : String)
  | keyword (word : Keyword)
  | symbol (sign : Symbol)
  | endOfInput
  | error (fault : LexicalFault)
deriving Inhabited

namespace Lexeme

/-- Is the lexeme this reserved word? -/
def isKeyword (lexeme : Lexeme) (word : Keyword) : Bool :=
  match lexeme with
  | keyword w => w == word
  | _ => false

/-- Is the lexeme this sign? -/
def isSymbol (lexeme : Lexeme) (sign : Symbol) : Bool :=
  match lexeme with
  | symbol s => s == sign
  | _ => false

/-- Is this the end of the text? -/
def isEnd : Lexeme → Bool
  | endOfInput => true
  | _ => false

/-- How a message shows the lexeme. -/
def display : Lexeme → String
  | number value => Number.Style.plain.render value
  | text value => "\"" ++ value ++ "\""
  | character value => "'" ++ value.toString ++ "'"
  | identifier name => "'" ++ name ++ "'"
  | keyword word => "'" ++ word.spelling ++ "'"
  | symbol sign => "'" ++ sign.spelling ++ "'"
  | endOfInput => "end of input"
  | error _ => "'invalid token'"

end Lexeme

/-- A lexeme and the position of its first character. -/
structure Token where
  lexeme : Lexeme
  position : Position
deriving Inhabited

end Betty
