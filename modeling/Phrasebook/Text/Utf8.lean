import Phrasebook.Text.CodePoint

/-!
# Phrasebook — UTF-8

Source files are read as UTF-8 whatever bytes they hold: each maximal ill-formed sequence becomes
one replacement character `U+FFFD`. The decoder is a machine whose state says which continuation
byte it waits for, so that a byte that does not fit is looked at again as a first byte.

* `Utf8.decode` — the characters of a byte sequence;
* `Utf8.encode` — the bytes of a character sequence;
* `Utf8.foldNewlines` — every line end becomes a line feed.
-/

namespace Phrasebook.Utf8

/-- What the decoder holds of an unfinished character: the bits read, the number of continuation
bytes still to come, and the range of the next one. -/
structure Partial where
  bits : Nat
  owed : Nat
  low : Nat
  high : Nat
deriving DecidableEq

/-- The replacement character. -/
def replacement : Char := '\ufffd'

/-- A first byte is a character by itself, the start of a longer one, or ill-formed. -/
inductive First where
  | done (c : Char)
  | more (p : Partial)

/-- Reads the first byte of a character. The ranges leave out overlong forms, surrogates and
numbers beyond the last code point. -/
def first (b : Nat) : First :=
  if b < 0x80 then .done (Char.ofNat b)
  else if 0xC2 ≤ b && b ≤ 0xDF then .more ⟨b - 0xC0, 1, 0x80, 0xBF⟩
  else if b == 0xE0 then .more ⟨0, 2, 0xA0, 0xBF⟩
  else if b == 0xED then .more ⟨0xD, 2, 0x80, 0x9F⟩
  else if 0xE1 ≤ b && b ≤ 0xEF then .more ⟨b - 0xE0, 2, 0x80, 0xBF⟩
  else if b == 0xF0 then .more ⟨0, 3, 0x90, 0xBF⟩
  else if 0xF1 ≤ b && b ≤ 0xF3 then .more ⟨b - 0xF0, 3, 0x80, 0xBF⟩
  else if b == 0xF4 then .more ⟨4, 3, 0x80, 0x8F⟩
  else .done replacement

/-- Decodes with the given unfinished character; `read` holds the characters so far in reverse. -/
def decodeFrom (read : List Char) : Option Partial → List UInt8 → List Char
  | none, [] => read.reverse
  | some _, [] => (replacement :: read).reverse
  | none, b :: rest =>
    match first b.toNat with
    | .done c => decodeFrom (c :: read) none rest
    | .more p => decodeFrom read (some p) rest
  | some p, b :: rest =>
    if p.low ≤ b.toNat && b.toNat ≤ p.high then
      let bits := p.bits * 0x40 + (b.toNat - 0x80)
      if p.owed ≤ 1 then decodeFrom (Char.ofNat bits :: read) none rest
      else decodeFrom read (some ⟨bits, p.owed - 1, 0x80, 0xBF⟩) rest
    else
      match first b.toNat with
      | .done c => decodeFrom (c :: replacement :: read) none rest
      | .more q => decodeFrom (replacement :: read) (some q) rest

/-- The characters of a byte sequence. -/
def decode (bytes : List UInt8) : List Char := decodeFrom [] none bytes

/-- The bytes of a character. -/
def encodeChar (c : Char) : List UInt8 :=
  let n := c.toNat
  if n < 0x80 then [n.toUInt8]
  else if n < 0x800 then [(0xC0 + n / 0x40).toUInt8, (0x80 + n % 0x40).toUInt8]
  else if n < 0x10000 then
    [(0xE0 + n / 0x1000).toUInt8, (0x80 + n / 0x40 % 0x40).toUInt8, (0x80 + n % 0x40).toUInt8]
  else
    [(0xF0 + n / 0x40000).toUInt8, (0x80 + n / 0x1000 % 0x40).toUInt8,
      (0x80 + n / 0x40 % 0x40).toUInt8, (0x80 + n % 0x40).toUInt8]

/-- The bytes of a character sequence. -/
def encode (cs : List Char) : List UInt8 := cs.flatMap encodeChar

/-- Writes every line end as a line feed: a carriage return becomes one, and a line feed right
after it is dropped. -/
def foldNewlinesFrom (afterReturn : Bool) : List Char → List Char
  | [] => []
  | c :: rest =>
    if c == '\r' then '\n' :: foldNewlinesFrom true rest
    else if c == '\n' && afterReturn then foldNewlinesFrom false rest
    else c :: foldNewlinesFrom false rest

/-- Writes every line end as a line feed. -/
def foldNewlines (cs : List Char) : List Char := foldNewlinesFrom false cs

end Phrasebook.Utf8
