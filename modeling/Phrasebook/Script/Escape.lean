import Phrasebook.Text.Units

/-!
# Phrasebook — the value of a string literal

The body of a string literal is cut into *pieces* from left to right: an escape sequence, or a code
point that stands for itself. The value of the literal is the concatenation of the values of the
pieces, read as UTF-16 code units: halves of a surrogate pair that come to stand side by side are
one code point.

Reading fails only at an escape in braces whose number is no code point. The failure says whether
the number still fits into a signed machine word of 32 bits.

* `Escape.pieces` — the pieces of a body;
* `Escape.unescape` — the value of a body.
-/

namespace Phrasebook.Escape

/-- A part of the body of a string literal. -/
inductive Piece where
  /-- A code point that stands for itself, escaped or not. -/
  | plain (c : CodePoint)
  /-- An escape that gives the number of a code point. -/
  | number (n : Nat)
  /-- An escaped line end, which stands for nothing. -/
  | nothing
deriving DecidableEq

/-- Why a body has no value. -/
inductive Failure where
  /-- The number of an escape lies beyond the last code point. -/
  | beyondLast
  /-- The number of an escape does not fit into 32 bits with sign. -/
  | overflow
deriving DecidableEq

/-- The number that digits stand for, if all are digits of the base. -/
def readDigits? (base : Nat) (digits : Text) : Option Nat :=
  digits.foldlM (fun n c => (c.digit? base).map (n * base + ·)) 0

/-- The number written by the first `count` code points, if these are digits of the base. -/
def fixedDigits? (base count : Nat) (t : Text) : Option Nat :=
  if (t.take count).length == count then readDigits? base (t.take count) else none

/-- The number written in braces at the start of a text, and the length of the braces. -/
def bracedDigits? (t : Text) : Option (Nat × Nat) :=
  match t with
  | c :: rest =>
    let digits := rest.takeWhile fun d => (d.digit? 16).isSome
    if c.is '{' && !digits.isEmpty && (rest.drop digits.length).head?.any (·.is '}') then
      (readDigits? 16 digits).map ((·, digits.length + 2))
    else none
  | [] => none

/-- The longest octal number of at most `count` digits at the start of a text, and its length. -/
def octalDigits (count : Nat) (t : Text) : Nat × Nat :=
  let digits := (t.take count).takeWhile fun d => (d.digit? 8).isSome
  ((readDigits? 8 digits).getD 0, digits.length)

/-- The value of the letters that escape a control character. -/
def control? (c : CodePoint) : Option Nat :=
  if c.is 'b' then some 0x08
  else if c.is 'f' then some 0x0C
  else if c.is 'n' then some 0x0A
  else if c.is 'r' then some 0x0D
  else if c.is 't' then some 0x09
  else if c.is 'v' then some 0x0B
  else none

/-- The escape after a backslash, and how many code points it takes. An `x` or `u` without its
digits stands for itself. -/
def escape? : Text → Option (Piece × Nat)
  | [] => none
  | c :: rest =>
    some <|
      if c.is 'u' then
        match bracedDigits? rest with
        | some (n, length) => (.number n, length + 1)
        | none =>
          match fixedDigits? 16 4 rest with
          | some n => (.number n, 5)
          | none => (.plain c, 1)
      else if c.is 'x' then
        match fixedDigits? 16 2 rest with
        | some n => (.number n, 3)
        | none => (.plain c, 1)
      else if c.within '0' '3' then
        let (n, length) := octalDigits 3 (c :: rest)
        (.number n, length)
      else if c.within '4' '7' then
        let (n, length) := octalDigits 2 (c :: rest)
        (.number n, length)
      else if c.is '\r' && rest.head?.any (·.is '\n') then (.nothing, 2)
      else if c.is '\n' || c.is '\r' || c.val == 0x2028 || c.val == 0x2029 then (.nothing, 1)
      else
        match control? c with
        | some n => (.number n, 1)
        | none => (.plain c, 1)

/-- The pieces of a body after the next `taken` code points, which belong to an escape. -/
def piecesFrom : Nat → Text → List Piece
  | _, [] => []
  | taken + 1, _ :: rest => piecesFrom taken rest
  | 0, c :: rest =>
    if c.is '\\' then
      match escape? rest with
      | some (piece, length) => piece :: piecesFrom length rest
      | none => .plain c :: piecesFrom 0 rest
    else .plain c :: piecesFrom 0 rest

/-- The pieces of a body. A backslash at its end stands for itself. -/
def pieces (body : Text) : List Piece := piecesFrom 0 body

/-- The value of a piece. -/
def Piece.value : Piece → Except Failure Text
  | .plain c => .ok [c]
  | .nothing => .ok []
  | .number n =>
    match CodePoint.ofNat? n with
    | some c => .ok [c]
    | none => .error (if n < 0x80000000 then .beyondLast else .overflow)

/-- The values of pieces, one after the other; the first piece without one decides the failure. -/
def values : List Piece → Except Failure Text
  | [] => .ok []
  | piece :: rest => do
    let value ← piece.value
    let others ← values rest
    return value ++ others

/-- The value of the body of a string literal. -/
def unescape (body : Text) : Except Failure Text :=
  (values (pieces body)).map Text.joinPairs

end Phrasebook.Escape
