import Phrasebook.Text.CodePoint

/-!
# Phrasebook — binary floating point numbers

Numbers with a fraction or an exponent have the values of the 64-bit binary format: a significand
below `2 ^ 53` times a power of two from `2 ^ -1074` to `2 ^ 971`. All computation is exact, in
natural numbers.

* `Binary64.ofDecimal` — the number nearest to a decimal, halves going to the even significand;
* `Binary64.shortest` — the shortest decimal that reads back as the same number;
* `Binary64.text` — its text: positional between `1e-4` and `1e16`, else with an exponent.
-/

namespace Phrasebook

/-- A number of the 64-bit binary format. A finite one has the value
`± significand * 2 ^ exponent`. -/
inductive Binary64 where
  | nan
  | infinite (negative : Bool)
  | finite (negative : Bool) (significand : Nat) (exponent : Int)
deriving DecidableEq

namespace Binary64

/-- The least exponent of the format. -/
def minExponent : Int := -1074

/-- The greatest exponent of the format. -/
def maxExponent : Int := 971

/-- Significands lie below `2 ^ 53`. -/
def significandBound : Nat := 0x20000000000000

/-- The quotient rounded to the nearest number, a half to the even one. -/
def roundDiv (num den : Nat) : Nat :=
  let quotient := num / den
  let twice := 2 * (num % den)
  if twice < den then quotient
  else if den < twice then quotient + 1
  else quotient + quotient % 2

/-- Numerator and denominator of `num / den * base ^ exponent`. -/
def scale (base : Nat) (num den : Nat) (exponent : Int) : Nat × Nat :=
  match exponent with
  | .ofNat e => (num * base.pow e, den)
  | .negSucc e => (num, den * base.pow (e + 1))

/-- The number nearest to a positive fraction. -/
def ofFraction (negative : Bool) (num den : Nat) : Binary64 :=
  -- the fraction lies between `2 ^ (size - 1)` and `2 ^ (size + 1)`
  let size : Int := (num.log2 : Int) - (den.log2 : Int)
  let tight := max minExponent (size - 53)
  let (n, d) := scale 2 num den (-tight)
  let exponent := if n / d < significandBound then tight else tight + 1
  let (n, d) := scale 2 num den (-exponent)
  let significand := roundDiv n d
  let (significand, exponent) :=
    if significand < significandBound then (significand, exponent) else (significand / 2, exponent + 1)
  if maxExponent < exponent then .infinite negative
  else .finite negative significand exponent

/-- The number nearest to `digits * 10 ^ exponent`. -/
def ofDecimal (negative : Bool) (digits : Nat) (exponent : Int) : Binary64 :=
  -- `digits` lies below `2 ^ (log2 + 1)`, so these cases need no powers
  if digits == 0 then .finite negative 0 minExponent
  else if 400 < exponent then .infinite negative
  else if exponent + digits.log2 < -400 then .finite negative 0 minExponent
  else
    let (num, den) := scale 10 digits 1 exponent
    ofFraction negative num den

/-- The greatest power of ten not above a positive fraction. -/
def decimalExponent (num den : Nat) : Int :=
  let size : Int := (num.log2 : Int) - (den.log2 : Int)
  let guess : Int := ((size - 1) * 30103).fdiv 100000 - 1
  let reaches (e : Int) : Bool :=
    let (n, d) := scale 10 1 1 e
    n * den ≤ num * d
  if reaches (guess + 3) then guess + 3
  else if reaches (guess + 2) then guess + 2
  else if reaches (guess + 1) then guess + 1
  else guess

/-- The open or closed interval of the fractions that read as one number; all three bounds are
numerators over the same denominator. -/
structure Interval where
  low : Nat
  value : Nat
  high : Nat
  den : Nat
  closed : Bool

/-- The fractions that read as the number with the given significand and exponent. Below the
least significand of a binade the neighbour is only half as far. -/
def readsAs (significand : Nat) (exponent : Int) : Interval :=
  let near := 2 * significand == significandBound && minExponent < exponent
  let (unit, den) := scale 2 1 4 exponent
  { low := (4 * significand - (if near then 1 else 2)) * unit
    value := 4 * significand * unit
    high := (4 * significand + 2) * unit
    den
    closed := significand % 2 == 0 }

/-- Whether `digits * 10 ^ exponent` lies in the interval. -/
def Interval.contains (i : Interval) (digits : Nat) (exponent : Int) : Bool :=
  let (n, d) := scale 10 digits 1 exponent
  if i.closed then i.low * d ≤ n * i.den && n * i.den ≤ i.high * d
  else i.low * d < n * i.den && n * i.den < i.high * d

/-- The decimal with the fewest digits in the interval, at least `count` of them; of two, the one
nearer to the value, and of two equally near the even one. -/
def Interval.fewest (i : Interval) (top : Int) : Nat → Nat → Nat × Int
  | 0, count => (0, top - count)
  | fuel + 1, count =>
    let exponent := top + 1 - count
    let (n, d) := scale 10 i.value i.den (-exponent)
    let below := n / d
    let nearer := roundDiv n d
    let other := if nearer == below then below + 1 else below
    if i.contains nearer exponent then (nearer, exponent)
    else if i.contains other exponent then (other, exponent)
    else i.fewest top fuel (count + 1)

/-- The shortest decimal `(digits, exponent)` that reads back as a finite positive number. -/
def shortest (significand : Nat) (exponent : Int) : Nat × Int :=
  let interval := readsAs significand exponent
  interval.fewest (decimalExponent interval.value interval.den) 17 1

/-- Decimal digits without the zeros at their end. -/
def trimZeros (digits : List Char) : List Char :=
  (digits.reverse.dropWhile (· == '0')).reverse

/-- A decimal written with a point, or with an exponent when its leading digit stands below the
fourth place after the point or above the sixteenth before it. -/
def decimalText (digits : Nat) (exponent : Int) : List Char :=
  let all := Nat.toDigits 10 digits
  let lead : Int := exponent + all.length - 1
  let shown := trimZeros all
  if -4 ≤ lead && lead < 16 then
    if lead < 0 then
      ['0', '.'] ++ List.replicate (-lead - 1).toNat '0' ++ shown
    else
      let whole := lead.toNat + 1
      if shown.length ≤ whole then
        shown ++ List.replicate (whole - shown.length) '0' ++ ['.', '0']
      else shown.take whole ++ ['.'] ++ shown.drop whole
  else
    let power := Nat.toDigits 10 lead.natAbs
    let sign := if lead < 0 then '-' else '+'
    let mantissa :=
      match shown with
      | [d] => [d]
      | d :: rest => d :: '.' :: rest
      | [] => ['0']
    mantissa ++ ['e', sign] ++ (if power.length < 2 then '0' :: power else power)

/-- The text of a number. -/
def text : Binary64 → Text
  | .nan => "nan"
  | .infinite negative => if negative then "-inf" else "inf"
  | .finite negative significand exponent =>
    let body :=
      if significand == 0 then ['0', '.', '0']
      else
        let (digits, power) := shortest significand exponent
        decimalText digits power
    Text.ofChars (if negative then '-' :: body else body)

end Binary64

end Phrasebook
