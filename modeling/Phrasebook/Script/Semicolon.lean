import Phrasebook.Script.Character

/-!
# Phrasebook — semicolons left out

A statement may leave out its semicolon at the end of the text, before a closing brace, and where
a line ends before the next token. The rule looks only at the characters that follow: a next line
that starts with an operator or an opening bracket continues the statement, whatever comes later.

A line may also end inside a comment. After an operand that makes no difference, because the
statement could go on; after a word such as `return`, or a name that is being declared, a line end
inside a comment counts like one outside.

* `Semicolon.omitted` — whether a semicolon is left out before the given rest of the text.
-/

namespace Phrasebook.Script.Semicolon

/-- How the line after a line end goes on. -/
def startsStatement : List Char → Bool
  | [] => true
  | c :: rest =>
    if c == '\x60' || c == ',' || c == ':' || c == ';' || c == '*' || c == '%' || c == '>' ||
        c == '<' || c == '=' || c == '[' || c == '(' || c == '?' || c == '^' || c == '|' ||
        c == '&' || c == '/' then false
    -- a fraction, but no member
    else if c == '.' then rest.head?.any Char.isDigit
    else if c == '+' then rest.head? == some '+'
    else if c == '-' then rest.head? == some '-'
    else if c == '!' then rest.head? != some '='
    -- the two operators that are words
    else if c == 'i' then
      match rest with
      | 'n' :: word =>
        if !word.head?.any isLetter then false
        else if "stanceof".toList.isPrefixOf word then (word.drop 8).head?.any isLetter
        else true
      | _ => true
    else true

/-- Where the reader stands relative to the last token. -/
inductive Place where
  /-- On its line. -/
  | sameLine
  /-- On its line, behind a space at which lines are not broken. -/
  | held
  /-- In a comment to the end of its line. -/
  | note
  /-- In a block comment; `broken` once the block holds a line end, `star` behind a star. -/
  | block (broken star : Bool)
  /-- On a later line. -/
  | nextLine
  /-- In a comment to the end of a later line. -/
  | nextNote
  /-- In a block comment on a later line. -/
  | nextBlock (star : Bool)
  /-- Behind a comment that ended the line. -/
  | afterNote

/-- Whether a semicolon is left out, read from the given place on. -/
def omittedAt (operand : Bool) : Place → List Char → Bool
  | .sameLine, [] => true
  | .held, [] => false
  | .note, [] => true
  | .block _ _, [] => false
  | .nextLine, [] => true
  | .nextNote, [] => true
  | .nextBlock _, [] => true
  | .afterNote, [] => true
  | .sameLine, c :: rest =>
    if c == '\x00' || c == '}' then true
    else if c == '/' then
      match rest with
      | '/' :: more => omittedAt operand .note more
      | '*' :: more => omittedAt operand (.block false false) more
      | _ => false
    else if endsLine c then omittedAt operand .nextLine rest
    else if isBreakingSpace c then omittedAt operand .sameLine rest
    else if isGap c then omittedAt operand .held rest
    else false
  | .held, c :: rest =>
    if c == '/' then
      match rest with
      | '/' :: more => omittedAt operand .note more
      | '*' :: more => omittedAt operand (.block false false) more
      | _ => false
    else if isGap c then omittedAt operand .held rest
    else false
  | .note, c :: rest =>
    if endsLine c then
      if operand then omittedAt operand .nextLine rest else omittedAt operand .afterNote rest
    else if c == '\r' && operand then omittedAt operand .sameLine rest
    else omittedAt operand .note rest
  | .block broken star, c :: rest =>
    if star && c == '/' then
      if broken && !operand && rest.head? != some '/' then
        rest.head? != some ',' && rest.head? != some '='
      else omittedAt operand .sameLine rest
    else omittedAt operand (.block (broken || endsLine c) (c == '*')) rest
  | .nextLine, c :: rest =>
    if c == '/' then
      match rest with
      | '/' :: more => omittedAt operand .nextNote more
      | '*' :: more => omittedAt operand (.nextBlock false) more
      | _ => false
    else if isBreakingSpace c then omittedAt operand .nextLine rest
    else startsStatement (c :: rest)
  | .nextNote, c :: rest =>
    if endsLine c then omittedAt operand .nextLine rest else omittedAt operand .nextNote rest
  | .nextBlock star, c :: rest =>
    if star && c == '/' then omittedAt operand .nextLine rest
    else omittedAt operand (.nextBlock (c == '*')) rest
  | .afterNote, c :: rest =>
    if c == '/' then
      match rest with
      | '/' :: more => omittedAt operand .nextNote more
      | '*' :: more => omittedAt operand (.nextBlock false) more
      | _ => false
    else if isBreakingSpace c then omittedAt operand .afterNote rest
    else c != ',' && c != '='

/-- Whether a semicolon is left out before the rest of a text. The flag says that the last token
ended an operand. -/
def omitted (operand : Bool) (rest : List Char) : Bool := omittedAt operand .sameLine rest

end Phrasebook.Script.Semicolon
