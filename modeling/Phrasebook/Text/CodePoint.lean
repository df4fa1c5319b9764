/-!
# Phrasebook — code points and text

A *text* is a finite sequence of Unicode code points. Unlike the characters of `String`, a code
point may be a surrogate: the value of a script's string literal is a sequence of UTF-16 code
units, and a program may write one half of a surrogate pair alone.

* `CodePoint` — a number below `0x110000`;
* `Text` — a list of code points;
* `Text.ofChars`, `Text.toChars?` — the texts without surrogates are exactly the character lists.
-/

namespace Phrasebook

/-- A Unicode code point, surrogates included. -/
structure CodePoint where
  /-- The number of the code point. -/
  val : Nat
  /-- Code points end at `0x10FFFF`. -/
  isLt : val < 0x110000
deriving DecidableEq

/-- A text is a sequence of code points. -/
abbrev Text := List CodePoint

namespace CodePoint

/-- The code point of a character. -/
def ofChar (c : Char) : CodePoint where
  val := c.toNat
  isLt := by
    have h := c.valid
    simp only [UInt32.isValidChar, Nat.isValidChar] at h
    simp only [Char.toNat]
    omega

/-- The code point with the given number, if there is one. -/
def ofNat? (n : Nat) : Option CodePoint :=
  if h : n < 0x110000 then some ⟨n, h⟩ else none

/-- The first half of a surrogate pair. -/
def isHigh (c : CodePoint) : Bool := 0xD800 ≤ c.val && c.val ≤ 0xDBFF

/-- The second half of a surrogate pair. -/
def isLow (c : CodePoint) : Bool := 0xDC00 ≤ c.val && c.val ≤ 0xDFFF

/-- Half of a surrogate pair. -/
def isSurrogate (c : CodePoint) : Bool := 0xD800 ≤ c.val && c.val ≤ 0xDFFF

/-- The character of a code point that is no surrogate. -/
def toChar? (c : CodePoint) : Option Char :=
  if h : c.val.isValidChar then some (Char.ofNatAux c.val h) else none

/-- `c.is ch` tests for one particular character. -/
def is (c : CodePoint) (ch : Char) : Bool := c.val == ch.toNat

/-- `c.within lo hi` tests for an inclusive range of characters. -/
def within (c : CodePoint) (lo hi : Char) : Bool := lo.toNat ≤ c.val && c.val ≤ hi.toNat

/-- The value of an ASCII digit in a base of at most sixteen. -/
def digit? (base : Nat) (c : CodePoint) : Option Nat :=
  let value :=
    if c.within '0' '9' then some (c.val - 0x30)
    else if c.within 'a' 'f' then some (c.val - 0x61 + 10)
    else if c.within 'A' 'F' then some (c.val - 0x41 + 10)
    else none
  value.filter (· < base)

end CodePoint

namespace Text

/-- The text of a list of characters. -/
def ofChars (cs : List Char) : Text := cs.map CodePoint.ofChar

/-- The text of a string. -/
def ofString (s : String) : Text := ofChars s.toList

instance : Coe String (List CodePoint) := ⟨ofString⟩

/-- The characters of a text, if none of its code points is a surrogate. -/
def toChars? (t : Text) : Option (List Char) := t.mapM CodePoint.toChar?

/-- The offset of the first code point that satisfies `p`, and the surrogates that stand there in a
row. -/
def surrogatesAt? (p : CodePoint → Bool) (t : Text) : Option (Nat × Text) :=
  (t.findIdx? p).map fun i => (i, (t.drop i).takeWhile CodePoint.isSurrogate)

/-- The decimal numeral of a natural number. -/
def ofNat (n : Nat) : Text := ofChars (Nat.toDigits 10 n)

/-- The parts of a text between the occurrences of a separator, at least one. -/
def splitOn (separator : Char) : Text → List Text
  | [] => [[]]
  | c :: rest =>
    if c.is separator then [] :: splitOn separator rest
    else
      match splitOn separator rest with
      | part :: parts => (c :: part) :: parts
      | [] => [[c]]

/-- Joins texts with a separator between them. -/
def joinWith (separator : Text) : List Text → Text
  | [] => []
  | [t] => t
  | t :: ts => t ++ separator ++ joinWith separator ts

/-- The number of line feeds of a text. -/
def lineFeeds (t : Text) : Nat := t.countP (·.is '\n')

/-- Order by code point, shorter texts first among extensions. -/
def le : Text → Text → Bool
  | [], _ => true
  | _ :: _, [] => false
  | a :: as, b :: bs => a.val < b.val || (a.val == b.val && le as bs)

end Text

end Phrasebook
