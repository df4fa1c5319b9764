import Phrasebook.Number.Binary64
import Phrasebook.Text.Blank
import Phrasebook.Text.Digit

/-!
# Phrasebook — numerals

How the text of a number is read. An integer numeral has a base mark `0x`, `0o` or `0b`, or is a
decimal that does not start with a zero; a decimal of zeros only is zero. Everything else is read
as a binary floating point number. Decimal digits may be those of any script, and blanks around a
numeral do not count.

* `Numeral.integer?` — integers of any size, decimals of at most `maxDigits` digits;
* `Numeral.binary64?` — a decimal with a fraction or an exponent, an infinity or a NaN.
-/

namespace Phrasebook.Numeral

/-- Decimals with more digits are not read as integers. -/
def maxDigits : Nat := 4300

/-- A numeral in ASCII: digits of other scripts are replaced, and so is any other code point beyond
ASCII, by a character that no numeral has. -/
def plain (t : Text) : List Char :=
  t.map fun c =>
    match c.decimal? with
    | some d => Nat.digitChar d
    | none => if c.val < 0x80 then Char.ofNat c.val else '?'

/-- Whether a numeral starts with a minus sign, and what follows its sign. -/
def sign : List Char → Bool × List Char
  | '-' :: rest => (true, rest)
  | '+' :: rest => (false, rest)
  | rest => (false, rest)

/-- The value of a digit in a base of at most sixteen. -/
def digit? (base : Nat) (c : Char) : Option Nat :=
  (CodePoint.ofChar c).digit? base

/-- The number that the digits stand for; there must be one at least. -/
def digits? (base : Nat) (cs : List Char) : Option Nat :=
  if cs.isEmpty then none
  else cs.foldlM (fun n c => (digit? base c).map (n * base + ·)) 0

/-- The number of an integer numeral without sign. -/
def natural? : List Char → Option Nat
  | '0' :: 'x' :: ds => digits? 16 ds
  | '0' :: 'X' :: ds => digits? 16 ds
  | '0' :: 'o' :: ds => digits? 8 ds
  | '0' :: 'O' :: ds => digits? 8 ds
  | '0' :: 'b' :: ds => digits? 2 ds
  | '0' :: 'B' :: ds => digits? 2 ds
  | ds =>
    if maxDigits < ds.length then none
    else if ds.head? == some '0' && !ds.all (· == '0') then none
    else digits? 10 ds

/-- The integer that a text stands for. -/
def integer? (t : Text) : Option Int :=
  let (negative, body) := sign (plain (Text.strip t))
  (natural? body).map fun n => if negative then -(n : Int) else n

/-- A decimal in three parts: digits before and after the point, and the exponent. -/
structure Decimal where
  whole : List Char
  fraction : List Char
  exponent : Int

/-- The exponent after its mark. -/
def exponent? : List Char → Option Int
  | [] => some 0
  | mark :: rest =>
    if mark == 'e' || mark == 'E' then
      let (negative, ds) := sign rest
      (digits? 10 ds).map fun n => if negative then -(n : Int) else n
    else none

/-- Cuts a decimal without sign into its parts. -/
def decimal? (cs : List Char) : Option Decimal :=
  let whole := cs.takeWhile Char.isDigit
  let afterWhole := cs.dropWhile Char.isDigit
  let (fraction, rest) :=
    match afterWhole with
    | '.' :: more => (more.takeWhile Char.isDigit, more.dropWhile Char.isDigit)
    | more => ([], more)
  if whole.isEmpty && fraction.isEmpty then none
  else (exponent? rest).map fun exponent => { whole, fraction, exponent }

/-- The number of a decimal. -/
def Decimal.toBinary64 (negative : Bool) (d : Decimal) : Binary64 :=
  let digits := (d.whole ++ d.fraction).foldl (fun n c => n * 10 + (c.toNat - 0x30)) 0
  Binary64.ofDecimal negative digits (d.exponent - d.fraction.length)

/-- The floating point number that a text stands for. -/
def binary64? (t : Text) : Option Binary64 :=
  let (negative, body) := sign (plain (Text.strip t))
  let lower := body.map Char.toLower
  if lower == "inf".toList || lower == "infinity".toList then some (.infinite negative)
  else if lower == "nan".toList then some .nan
  else (decimal? body).map (Decimal.toBinary64 negative)

end Phrasebook.Numeral
