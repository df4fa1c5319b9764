import Phrasebook.Script.Character

/-!
# Phrasebook — spellings of tokens

How far a token reaches. Each function looks at the characters from the start of a token and gives
its length, or the characters it takes and the rest. All are recursions on the characters; an
escape sequence is passed by counting down the characters it takes.

* `Lexeme.name` — names and keywords;
* `Lexeme.numberLength` — numeric literals;
* `Lexeme.string`, `Lexeme.fragment` — string literals and the fixed parts of templates;
* `Lexeme.regex` — the pattern of a regular expression;
* `Lexeme.operator?` — the longest operator.
-/

namespace Phrasebook.Script.Lexeme

/-! ## Names -/

/-- The length of a Unicode escape behind its backslash. -/
def unicodeEscape? : List Char → Option Nat
  | 'u' :: rest =>
    match rest with
    | '{' :: more =>
      let digits := more.takeWhile isHexDigit
      if !digits.isEmpty && (more.drop digits.length).head? == some '}' then
        some (digits.length + 3)
      else none
    | _ => if (rest.take 4).length == 4 && (rest.take 4).all isHexDigit then some 5 else none
  | _ => none

/-- A name behind the characters read so far, which are kept in reverse; `escaped` characters
belong to an escape. -/
def nameFrom : Bool → Nat → List Char → List Char → List Char × List Char
  | _, _, read, [] => (read.reverse, [])
  | _, escaped + 1, read, c :: rest => nameFrom false escaped (c :: read) rest
  | first, 0, read, c :: rest =>
    if (if first then isNameStart c else isNameChar c) then nameFrom false 0 (c :: read) rest
    else if c == '\\' then
      match unicodeEscape? rest with
      | some length => nameFrom false length (c :: read) rest
      | none => (read.reverse, c :: rest)
    else (read.reverse, c :: rest)

/-- The name at the start of a text, empty if there is none, and the rest. -/
def name (cs : List Char) : List Char × List Char := nameFrom true 0 [] cs

/-- A character of a name with hyphens. -/
def isTagChar (c : Char) : Bool := c.isAlphanum || c == '_' || c == '$'

/-- The name of an element or attribute: a name of ASCII letters may go on with hyphens. -/
def tagName (cs : List Char) : List Char × List Char :=
  let (word, rest) := name cs
  if !word.isEmpty && word.all isTagChar && rest.head? == some '-' then
    (word ++ rest.takeWhile (fun c => isTagChar c || c == '-'),
      rest.dropWhile (fun c => isTagChar c || c == '-'))
  else (word, rest)

/-- Words that are never names of variables. -/
def reservedWords : List (List Char) :=
  ["break", "case", "catch", "class", "const", "continue", "debugger", "default", "delete", "do",
    "else", "export", "extends", "false", "finally", "for", "function", "if", "import", "in",
    "instanceof", "new", "null", "return", "super", "switch", "this", "throw", "true", "try",
    "typeof", "var", "void", "while", "with"].map String.toList

/-- Whether a word is never the name of a variable. -/
def isReserved (word : List Char) : Bool := reservedWords.contains word

/-- Whether a text starts with a word that can name a variable. -/
def startsVariable (cs : List Char) : Bool :=
  let word := (name cs).1
  !word.isEmpty && !isReserved word

/-! ## Numbers -/

/-- The length of a run of digits with single separators between them. -/
def digitRun (isDigit : Char → Bool) : Bool → List Char → Nat
  | _, [] => 0
  | afterDigit, c :: rest =>
    if isDigit c then digitRun isDigit true rest + 1
    else if c == '_' && afterDigit && rest.head?.any isDigit then digitRun isDigit false rest + 1
    else 0

/-- The length of an exponent, zero if there is none. -/
def exponentLength : List Char → Nat
  | mark :: rest =>
    if mark == 'e' || mark == 'E' then
      let sign := if rest.head? == some '+' || rest.head? == some '-' then 1 else 0
      let digits := digitRun Char.isDigit false (rest.drop sign)
      if digits == 0 then 0 else digits + sign + 1
    else 0
  | [] => 0

/-- The length of an integer with a base mark, zero if there is none. -/
def markedLength (cs : List Char) : Nat :=
  let digits (isDigit : Char → Bool) (more : List Char) : Nat :=
    match digitRun isDigit false more with
    | 0 => 0
    | n => n + 2
  match cs with
  | '0' :: mark :: more =>
    if mark == 'x' || mark == 'X' then digits isHexDigit more
    else if mark == 'o' || mark == 'O' then digits isOctalDigit more
    else if mark == 'b' || mark == 'B' then digits (fun c => c == '0' || c == '1') more
    else 0
  | _ => 0

/-- The length of the integer part that a fraction or an exponent may follow. -/
def wholeLength (cs : List Char) : Nat :=
  match cs with
  | '0' :: rest =>
    if rest.head?.any (fun c => c.isDigit && c != '0') then digitRun Char.isDigit false cs else 1
  | _ => digitRun Char.isDigit false cs

/-- The length of a decimal with a fraction or an exponent, zero if there is none. -/
def fractionLength (cs : List Char) : Nat :=
  let whole := wholeLength cs
  match cs.drop whole with
  | '.' :: more =>
    let digits := digitRun Char.isDigit false more
    if whole == 0 && digits == 0 then 0
    else whole + 1 + digits + exponentLength (more.drop digits)
  | more =>
    match exponentLength more with
    | 0 => 0
    | n => if whole == 0 then 0 else whole + n

/-- The length of a numeric literal, zero if there is none. -/
def numberLength (cs : List Char) : Nat :=
  let integer := max (markedLength cs) (digitRun Char.isDigit false cs)
  let integer := if 0 < integer && (cs.drop integer).head? == some 'n' then integer + 1 else integer
  max integer (fractionLength cs)

/-! ## Strings -/

/-- A token that reaches its end, or stops before a character that cannot go on. -/
inductive Scan where
  | done (taken rest : List Char)
  | stuck (taken rest : List Char)

/-- The length of an escape sequence behind its backslash. -/
def escapeLength? (cs : List Char) : Option Nat :=
  match cs with
  | [] => none
  | c :: rest =>
    if c == 'u' then unicodeEscape? cs
    else if c == 'x' then
      if (rest.take 2).length == 2 && (rest.take 2).all isHexDigit then some 3 else none
    else if isOctalDigit c then some ((cs.take 3).takeWhile isOctalDigit).length
    else if (c == '\r' || c == '?') && rest.head?.any endsLine then some 2
    else if c == '\x00' then none
    else some 1

/-- A string literal behind its opening quote. Once a line end is read, only white space may come
before the closing quote. -/
def stringFrom (quote : Char) : Nat → Bool → List Char → List Char → Scan
  | _, _, read, [] => .stuck read.reverse []
  | escaped + 1, broken, read, c :: rest => stringFrom quote escaped broken (c :: read) rest
  | 0, true, read, c :: rest =>
    if c == quote then .done (c :: read).reverse rest
    else if isGap c then stringFrom quote 0 true (c :: read) rest
    else .stuck read.reverse (c :: rest)
  | 0, false, read, c :: rest =>
    if c == quote then .done (c :: read).reverse rest
    else if c == '\\' then
      match escapeLength? rest with
      | some length => stringFrom quote length false (c :: read) rest
      | none => .stuck read.reverse (c :: rest)
    else if c == '\n' || c == '\r' then stringFrom quote 0 true (c :: read) rest
    else if c == '\x00' then .stuck read.reverse (c :: rest)
    else stringFrom quote 0 false (c :: read) rest

/-- A string literal, from its opening quote on. -/
def string : List Char → Scan
  | [] => .stuck [] []
  | quote :: rest => stringFrom quote 0 false [quote] rest

/-- The length of a character reference behind its ampersand. -/
def referenceLength? (cs : List Char) : Option Nat :=
  let closed (limit skipped : Nat) (isDigit : Char → Bool) : Option Nat :=
    let digits := ((cs.drop skipped).takeWhile isDigit).length
    if 0 < digits && digits ≤ limit && (cs.drop (skipped + digits)).head? == some ';' then
      some (skipped + digits + 1)
    else none
  match cs with
  | '#' :: 'x' :: _ => closed 6 2 isHexDigit
  | '#' :: 'X' :: _ => closed 6 2 isHexDigit
  | '#' :: _ => closed 5 1 Char.isDigit
  | _ => closed 30 0 Char.isAlpha

/-- The string of an attribute behind its opening quote. It may hold line ends, a backslash does not
escape, and an ampersand before a letter or `#` starts a character reference. -/
def attributeFrom (quote : Char) : Nat → List Char → List Char → Scan
  | _, read, [] => .stuck read.reverse []
  | taken + 1, read, c :: rest => attributeFrom quote taken (c :: read) rest
  | 0, read, c :: rest =>
    if c == quote then .done (c :: read).reverse rest
    else if c == '\x00' then .stuck read.reverse (c :: rest)
    else if c == '&' then
      if rest.head?.any (fun d => d == '#' || d.isAlpha) then
        match referenceLength? rest with
        | some length => attributeFrom quote length (c :: read) rest
        | none => .stuck read.reverse (c :: rest)
      else attributeFrom quote 1 (c :: read) rest
    else attributeFrom quote 0 (c :: read) rest

/-- The string of an attribute, from its opening quote on. -/
def attributeString : List Char → Scan
  | [] => .stuck [] []
  | quote :: rest => attributeFrom quote 0 [quote] rest

/-- The fixed part of a template up to its end, an escape or a substitution. -/
def fragmentFrom : List Char → List Char → List Char × List Char
  | read, [] => (read.reverse, [])
  | read, c :: rest =>
    if c == '\x60' || c == '\\' || c == '\x00' || (c == '$' && rest.head? == some '{') then
      (read.reverse, c :: rest)
    else fragmentFrom (c :: read) rest

/-- The fixed part at the start of a text, and the rest. -/
def fragment (cs : List Char) : List Char × List Char := fragmentFrom [] cs

/-- The pattern of a regular expression behind its opening slash; a slash inside brackets does not
end it, and `escaped` says that a backslash was read last. -/
def regexFrom : Bool → Bool → List Char → List Char → Scan
  | _, _, read, [] => .stuck read.reverse []
  | escaped, bracket, read, c :: rest =>
    if c == '\n' || c == '\x00' then .stuck read.reverse (c :: rest)
    else if escaped then regexFrom false bracket (c :: read) rest
    else if c == '\\' then regexFrom true bracket (c :: read) rest
    else if bracket then regexFrom false (c != ']') (c :: read) rest
    else if c == '/' then .done read.reverse (c :: rest)
    else regexFrom false (c == '[') (c :: read) rest

/-- The pattern of a regular expression behind its opening slash, and the text from the closing
slash on. -/
def regex (cs : List Char) : Scan := regexFrom false false [] cs

/-- Text between elements. The flags say that a character was read that is more than a line end and
the white space behind it, and that the last character belongs to such white space. -/
def elementTextFrom : Bool → Bool → List Char → List Char → Bool × List Char × List Char
  | saw, _, read, [] => (saw, read.reverse, [])
  | saw, margin, read, c :: rest =>
    if c == '<' || c == '>' || c == '{' || c == '}' || c == '&' || c == '\x00' then
      (saw, read.reverse, c :: rest)
    else if c == '\n' then elementTextFrom saw true (c :: read) rest
    else
      let margin := margin && isBreakingSpace c
      elementTextFrom (saw || !margin) margin (c :: read) rest

/-- Text between elements: whether it counts, the text and the rest. -/
def elementText (cs : List Char) : Bool × List Char × List Char :=
  elementTextFrom false false [] cs

/-! ## Operators -/

/-- The operators that can follow an operand, longer ones before their beginnings. -/
def operators : List (List Char) :=
  [">>>=", "===", "!==", "**=", "<<=", ">>=", ">>>", "&&=", "||=", "??=", "=>", "==", "!=", "<=",
    ">=", "&&", "||", "??", "++", "--", "+=", "-=", "*=", "/=", "%=", "&=", "|=", "^=", "<<", ">>",
    "**", "=", "<", ">", "+", "-", "*", "/", "%", "&", "|", "^"].map String.toList

/-- The longest operator at the start of a text, and the rest; two of them are words. -/
def operator? (cs : List Char) : Option (List Char × List Char) :=
  match cs with
  | 'i' :: _ =>
    let (word, rest) := name cs
    if word == ['i', 'n'] || word == "instanceof".toList then some (word, rest) else none
  | _ =>
    (operators.find? (·.isPrefixOf cs)).map fun op => (op, cs.drop op.length)

/-- How tightly a binary operator binds, the tightest with the greatest number. -/
def binding? (op : List Char) : Option Nat :=
  let levels : List (Nat × List String) :=
    [(12, ["**"]), (11, ["*", "/", "%"]), (10, ["+", "-"]), (9, ["<<", ">>", ">>>"]),
      (8, ["<", "<=", ">", ">=", "in", "instanceof"]), (7, ["==", "!=", "===", "!=="]), (6, ["&"]),
      (5, ["^"]), (4, ["|"]), (3, ["&&"]), (2, ["||"]), (1, ["??"])]
  (levels.find? fun (_, ops) => ops.any (·.toList == op)).map (·.1)

/-- The level of the only binary operator that groups to the right. -/
def powerBinding : Nat := 12

/-- The comparisons that end with an equals sign. -/
def comparisons : List String := ["==", "===", "!=", "!==", "<=", ">="]

/-- The operators that compute and assign. -/
def isCompoundAssignment (op : List Char) : Bool :=
  op.getLast? == some '=' && 2 ≤ op.length && !(comparisons.any (·.toList == op))

/-- Whether a conditional expression goes on with `?`: not with `??`, and with `?.` only before a
digit. -/
def startsConditional : List Char → Bool
  | '?' :: '?' :: _ => false
  | '?' :: '.' :: rest => rest.head?.any Char.isDigit
  | '?' :: _ => true
  | _ => false

/-- Whether a chain goes on with `?.`. -/
def startsOptionalChain : List Char → Bool
  | '?' :: '.' :: rest => !rest.head?.any Char.isDigit
  | _ => false

/-- Whether a text starts an operand rather than going on behind one. -/
def startsOperand (cs : List Char) : Bool :=
  match cs with
  | [] => false
  | c :: rest =>
    if isNameStart c then !(operator? cs).isSome
    else if c == '!' then rest.head? != some '='
    else if c == '<' then rest.head? != some '=' && rest.head? != some '<'
    else if c == '.' then rest.head?.any Char.isDigit
    else c.isDigit || c == '\\' || c == '\x22' || c == '\x27' || c == '\x60' || c == '(' ||
      c == '[' || c == '{' || c == '/' || c == '~' || c == '+' || c == '-' || c == '@' || c == '#'

end Phrasebook.Script.Lexeme
