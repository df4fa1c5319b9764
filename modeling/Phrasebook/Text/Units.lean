import Phrasebook.Text.CodePoint

/-!
# Phrasebook — UTF-16 code units

Scripts see a text as its UTF-16 code units: a code point below `0x10000` is one unit, every other
one a surrogate pair of two. Two texts with the same units are the same text to a script.

* `Text.units` — the code units;
* `Text.joinPairs` — the text with the same units in which no high surrogate stands directly
  before a low one;
* `Text.unitsLe` — the order of the unit sequences, in which scripts compare strings.
-/

namespace Phrasebook

/-- The UTF-16 code units of a code point. -/
def CodePoint.units (c : CodePoint) : List Nat :=
  if c.val < 0x10000 then [c.val]
  else [0xD800 + (c.val - 0x10000) / 0x400, 0xDC00 + (c.val - 0x10000) % 0x400]

/-- The code point written as the given surrogate pair. -/
def CodePoint.ofPair? (high low : CodePoint) : Option CodePoint :=
  if high.isHigh && low.isLow then
    ofNat? (0x10000 + (high.val - 0xD800) * 0x400 + (low.val - 0xDC00))
  else none

namespace Text

/-- The UTF-16 code units of a text. -/
def units (t : Text) : List Nat := t.flatMap CodePoint.units

/-- Replaces each surrogate pair by the code point it stands for, from left to right. -/
def joinPairs : Text → Text
  | [] => []
  | [c] => [c]
  | high :: low :: rest =>
    match CodePoint.ofPair? high low with
    | some c => c :: joinPairs rest
    | none => high :: joinPairs (low :: rest)

/-- The lexicographic order of sequences of code units. -/
def unitListLe : List Nat → List Nat → Bool
  | [], _ => true
  | _ :: _, [] => false
  | a :: as, b :: bs => a < b || (a == b && unitListLe as bs)

/-- The order of texts by their code units. -/
def unitsLe (a b : Text) : Bool := unitListLe a.units b.units

end Text

end Phrasebook
