import Phrasebook.Text.CodePoint

/-!
# Phrasebook — blanks and lines

Translator comments and placeholders are trimmed and cut into lines with the full Unicode notion
of a blank and of a line break.

* `CodePoint.isBlank`, `Text.strip` — blanks, and a text without the blanks at its two ends;
* `CodePoint.isLineBreak`, `Text.lines` — line breaks, and the lines between them; a carriage
  return and the line feed after it are one break, and the last line is dropped when empty.
-/

namespace Phrasebook

/-- White space: the Unicode spaces, the ASCII controls for spacing, and the four separators
`0x1C` to `0x1F`. -/
def CodePoint.isBlank (c : CodePoint) : Bool :=
  (0x09 ≤ c.val && c.val ≤ 0x0D) || (0x1C ≤ c.val && c.val ≤ 0x20) || c.val == 0x85 ||
    c.val == 0xA0 || c.val == 0x1680 || (0x2000 ≤ c.val && c.val ≤ 0x200A) ||
    c.val == 0x2028 || c.val == 0x2029 || c.val == 0x202F || c.val == 0x205F || c.val == 0x3000

/-- A code point that ends a line. -/
def CodePoint.isLineBreak (c : CodePoint) : Bool :=
  (0x0A ≤ c.val && c.val ≤ 0x0D) || (0x1C ≤ c.val && c.val ≤ 0x1E) || c.val == 0x85 ||
    c.val == 0x2028 || c.val == 0x2029

namespace Text

/-- Drops the code points at the end of a text that satisfy `p`. -/
def dropEndWhile (p : CodePoint → Bool) (t : Text) : Text :=
  (t.reverse.dropWhile p).reverse

/-- Drops the blanks at both ends. -/
def strip (t : Text) : Text :=
  dropEndWhile CodePoint.isBlank (t.dropWhile CodePoint.isBlank)

/-- The lines of a text: `current` holds the open line in reverse, and `afterReturn` says that
the last code point read was a carriage return. -/
def linesFrom (current : Text) (afterReturn : Bool) : Text → List Text
  | [] => if current.isEmpty then [] else [current.reverse]
  | c :: rest =>
    if afterReturn && c.is '\n' then linesFrom [] false rest
    else if c.isLineBreak then current.reverse :: linesFrom [] (c.is '\r') rest
    else linesFrom (c :: current) false rest

/-- The lines of a text, without their breaks. -/
def lines (t : Text) : List Text := linesFrom [] false t

end Text

end Phrasebook
