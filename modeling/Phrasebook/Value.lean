import Phrasebook.Number.Numeral
import Phrasebook.Text.Printable

/-!
# Phrasebook — values

The value of an argument, as far as it is known without running the script, and the payload of a
message. A payload that can be translated is a text, or a pair of texts for singular and plural;
all others exist only to be shown in an error.

* `Value` — null, truth values, numbers, texts, tuples and lists;
* `Value.number` — the value of a numeric literal;
* `Value.show?` — how an error shows a value; integers of more than `Numeral.maxDigits` digits
  are not shown.
-/

namespace Phrasebook

/-- A value known without running the script. -/
inductive Value where
  | null
  | bool (b : Bool)
  | int (n : Int)
  | float (x : Binary64)
  | text (t : Text)
  | tuple (items : List Value)
  | list (items : List Value)

namespace Value

/-- The value of a numeric literal. Separators `_` and the marks `n` at its end do not count. -/
def number (literal : Text) : Value :=
  let digits := Text.dropEndWhile (·.is 'n') (literal.filter fun c => !c.is '_')
  match Numeral.integer? digits with
  | some n => .int n
  | none =>
    match Numeral.binary64? digits with
    | some x => .float x
    | none => .float .nan

/-- The text of a value that is one. -/
def text? : Value → Option Text
  | .text t => some t
  | _ => none

/-! ## How a value is shown -/

/-- A number in hexadecimal with at least `width` digits. -/
def hex (width n : Nat) : List Char :=
  let digits := Nat.toDigits 16 n
  List.replicate (width - digits.length) '0' ++ digits

/-- How a quoted text shows a code point: the quote in use, the backslash and what is not
printable are escaped. -/
def quotedCodePoint (quote : Char) (c : CodePoint) : Text :=
  if c.is '\\' || c.is quote then [CodePoint.ofChar '\\', c]
  else if c.is '\n' then "\\n"
  else if c.is '\r' then "\\r"
  else if c.is '\t' then "\\t"
  else if c.isPrintable then [c]
  else if c.val < 0x100 then ("\\x" : Text) ++ Text.ofChars (hex 2 c.val)
  else if c.val < 0x10000 then ("\\u" : Text) ++ Text.ofChars (hex 4 c.val)
  else ("\\U" : Text) ++ Text.ofChars (hex 8 c.val)

/-- A text in quotes: single ones, unless it holds a single quote and no double one. -/
def quoted (t : Text) : Text :=
  let quote := if t.any (·.is '\x27') && !t.any (·.is '\x22') then '\x22' else '\x27'
  [CodePoint.ofChar quote] ++ t.flatMap (quotedCodePoint quote) ++ [CodePoint.ofChar quote]

/-- The decimal of an integer, if it is not too long to be shown. -/
def integerText? (n : Int) : Option Text :=
  let digits := Nat.toDigits 10 n.natAbs
  if Numeral.maxDigits < digits.length then none
  else some (Text.ofChars (if n < 0 then '-' :: digits else digits))

mutual

/-- How a value is shown, if all its integers can be. -/
def show? : Value → Option Text
  | .null => some "None"
  | .bool b => some (if b then "True" else "False")
  | .int n => integerText? n
  | .float x => some x.text
  | .text t => some (quoted t)
  | .tuple items => do
    let parts ← showAll? items
    let inside : Text := Text.joinWith ", " parts
    return ("(" : Text) ++ inside ++ (if parts.length == 1 then (",)" : Text) else (")" : Text))
  | .list items => do
    let parts ← showAll? items
    return ("[" : Text) ++ Text.joinWith ", " parts ++ ("]" : Text)

/-- How the items of a tuple or list are shown. -/
def showAll? : List Value → Option (List Text)
  | [] => some []
  | item :: rest => do
    let shown ← show? item
    let others ← showAll? rest
    return shown :: others

end

end Value

end Phrasebook
