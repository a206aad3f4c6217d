import Betty.Heap
import Betty.Number.Decimal
import Betty.Text.Blank

/-!
# Conversions between types of values
-/

namespace Betty.Intrinsic

/-- A value as a number. A text is read as a numeral, without the blanks around it. -/
def toNumber : Value → Except Fault Float
  | .number value => .ok value
  | .character value => .ok value.val.toFloat
  | .boolean value => .ok (if value then 1 else 0)
  | .text value =>
    match Number.ofChars? (Text.trimBlanks value.text.toList) with
    | some number => .ok number
    | none => .error (.noNumber value.text)
  | other => .error (.type (.noConversion .number other.kind))

/-- A value as a truth value. A text counts as the word it spells, in letters of either
case and with blanks around it, and otherwise as true unless it is empty. -/
def toBoolean : Value → Except Fault Bool
  | .boolean value => .ok value
  | .number value => .ok (value != 0)
  | .character _ => .ok true
  | .text value =>
    let word := String.ofList ((Text.trimBlanks value.text.toList).map Char.toLower)
    if word = "true" then .ok true
    else if word = "false" then .ok false
    else .ok !value.text.isEmpty
  | other => .error (.type (.noConversion .boolean other.kind))

/-- The character with the given code point. -/
def characterOf? (code : Float) : Option Char :=
  match Number.integer? code with
  | some (.ofNat n) => if h : n.isValidChar then some (Char.ofNatAux n h) else none
  | _ => none

/-- A value as a character. A text must consist of one character. -/
def toCharacter : Value → Except Fault Char
  | .character value => .ok value
  | .boolean value => .ok (if value then 'T' else 'F')
  | .number code =>
    match characterOf? code with
    | some value => .ok value
    | none => .error (.noCodePoint code)
  | .text value =>
    match value.text.toList with
    | [single] => .ok single
    | _ => .error (.noCharacter value.text)
  | other => .error (.type (.noConversion .character other.kind))

/-- The elements of a text as a list. -/
def toElements : Value → Except Fault (Array Value)
  | .text value => .ok (value.text.toList.map Value.character).toArray
  | other => .error (.type (.noConversion .list other.kind))

end Betty.Intrinsic
