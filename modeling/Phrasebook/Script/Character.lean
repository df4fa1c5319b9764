import Phrasebook.Text.Word

/-!
# Phrasebook — character classes of scripts

Which characters separate tokens, end lines and make up names. The null character belongs to no
class: it ends every token and starts none.
-/

namespace Phrasebook.Script

/-- The Unicode white space. -/
def isWhiteSpace (c : Char) : Bool :=
  let n := c.toNat
  (0x09 ≤ n && n ≤ 0x0D) || n == 0x20 || n == 0x85 || n == 0xA0 || n == 0x1680 ||
    (0x2000 ≤ n && n ≤ 0x200A) || n == 0x2028 || n == 0x2029 || n == 0x202F || n == 0x205F ||
    n == 0x3000

/-- White space between tokens: also the byte order mark and two invisible characters. -/
def isGap (c : Char) : Bool :=
  isWhiteSpace c || c.toNat == 0xFEFF || c.toNat == 0x2060 || c.toNat == 0x200B

/-- White space at which a line may be broken: without the no-break spaces. -/
def isBreakingSpace (c : Char) : Bool :=
  isWhiteSpace c && !(c.toNat == 0x85 || c.toNat == 0xA0 || c.toNat == 0x2007 || c.toNat == 0x202F)

/-- The characters that end a line where a semicolon may be left out. -/
def endsLine (c : Char) : Bool := c == '\n' || c.toNat == 0x2028 || c.toNat == 0x2029

/-- Characters of operators, punctuation and quotes. -/
def isPunctuation (c : Char) : Bool :=
  c == ':' || c == ';' || c == '\x60' || c == '\x22' || c == '\x27' || c == '@' || c == '#' ||
    c == '.' || c == ',' || c == '|' || c == '^' || c == '&' || c == '<' || c == '=' || c == '>' ||
    c == '+' || c == '-' || c == '*' || c == '/' || c == '\\' || c == '%' || c == '?' || c == '!' ||
    c == '~' || c == '(' || c == ')' || c == '[' || c == ']' || c == '{' || c == '}'

/-- A character that can continue a name. -/
def isNameChar (c : Char) : Bool :=
  if c.isAlphanum || c == '_' || c == '$' then true
  else 0x20 ≤ c.toNat && !isGap c && !isPunctuation c

/-- A character that can start a name. -/
def isNameStart (c : Char) : Bool := isNameChar c && !c.isDigit

/-- A letter of any script. -/
def isLetter (c : Char) : Bool :=
  c.isAlpha || (0x80 ≤ c.toNat && (CodePoint.ofChar c).isWord)

/-- A hexadecimal digit. -/
def isHexDigit (c : Char) : Bool :=
  c.isDigit || ('a' ≤ c && c ≤ 'f') || ('A' ≤ c && c ≤ 'F')

/-- An octal digit. -/
def isOctalDigit (c : Char) : Bool := '0' ≤ c && c ≤ '7'

/-- The number of line feeds among characters. -/
def lineFeeds (cs : List Char) : Nat := cs.count '\n'

end Phrasebook.Script
