import Mathlib.Data.Nat.Digits.Defs
import Phrasebook.Proofs.SurrogatePairs

/-!
# Phrasebook — the value of a string literal, token by token

The language of scripts gives the body of a string literal as a sequence of *tokens*, and defines its value
by theirs: a code point that stands for itself, a control character behind its letter, a number in
hexadecimal or octal digits, or nothing at all for an escaped line end. The value is a sequence of UTF-16
code units, so that two tokens may each give one half of a code point.

`Escape.unescape` does not read tokens. It looks for the first form that fits at each backslash, takes as
many code points as this form has, and joins the surrogates that come to stand side by side. Both agree
because every form is read back with anything behind it, with two exceptions: an octal escape that has room
for another digit must not have one behind it, and an escaped carriage return no line feed.

Main results:

* `Escape.readDigits?_map` — the number that digits stand for;
* `Escape.pieces_spelling` — a token is read as one piece, with the value of the token;
* `Escape.unescape_spelling` — the value of every sequence of tokens.
-/

namespace Phrasebook.Escape

/-! ## Tokens -/

/-- The number that the values of digits stand for in a base, the highest one first. -/
def numberOf (base : Nat) (values : List Nat) : Nat := Nat.ofDigits base values.reverse

/-- A hexadecimal digit. If it is a letter, this may be a capital. -/
structure HexDigit where
  value : Fin 16
  isCapital : Bool

def HexDigit.codePoint (d : HexDigit) : CodePoint :=
  let letter := Nat.digitChar d.value
  .ofChar (if d.isCapital then letter.toUpper else letter)

/-- The number of hexadecimal digits. -/
def hexNumber (digits : List HexDigit) : Nat := numberOf 16 (digits.map fun d => d.value.val)

/-- An octal digit as it is written. -/
def octalDigit (d : Fin 8) : CodePoint := .ofChar (Nat.digitChar d)

/-- How many digits an octal escape may have behind the first one, so that it stays below `256`. -/
def room (first : Fin 8) : Nat := if first < 4 then 2 else 1

/-- An octal escape. -/
structure Octal where
  first : Fin 8
  more : List (Fin 8)
  fits : more.length ≤ room first

namespace Octal

def digits (o : Octal) : List (Fin 8) := o.first :: o.more

/-- Whether no further digit could belong to an octal escape. -/
def isFull (o : Octal) : Bool := o.more.length == room o.first

def number (o : Octal) : Nat := numberOf 8 (o.digits.map Fin.val)

end Octal

/-- What ends a line of a script. -/
inductive LineEnd where
  | lineFeed
  | carriageReturn
  | both
  | lineSeparator
  | paragraphSeparator
deriving DecidableEq

def LineEnd.characters : LineEnd → List Char
  | .lineFeed => ['\n']
  | .carriageReturn => ['\r']
  | .both => ['\r', '\n']
  | .lineSeparator => ['\u2028']
  | .paragraphSeparator => ['\u2029']

/-- The letters of the control characters, with their code units. -/
def controls : List (Char × Nat) :=
  [('b', 0x08), ('f', 0x0C), ('n', 0x0A), ('r', 0x0D), ('t', 0x09), ('v', 0x0B)]

/-- The characters that do not stand for themselves behind a backslash. -/
def reserved : List Char :=
  ['b', 'f', 'n', 'r', 't', 'v', 'x', 'u', '0', '1', '2', '3', '4', '5', '6', '7', '\n', '\r', '\u2028',
    '\u2029']

/-- A token of the body of a string literal. -/
inductive Token where
  /-- A code point other than the backslash. -/
  | raw (c : CodePoint) (hc : c.is '\\' = false)
  /-- The letter of a control character behind a backslash. -/
  | control (letter : Char) (unit : Nat) (hletter : (letter, unit) ∈ controls)
  /-- A code point that stands for itself behind a backslash. -/
  | itself (c : CodePoint) (hc : ∀ ch ∈ reserved, c.is ch = false)
  /-- Two digits behind `x`. -/
  | hexTwo (d₁ d₀ : HexDigit)
  /-- Four digits behind `u`. -/
  | hexFour (d₃ d₂ d₁ d₀ : HexDigit)
  /-- Any number of digits in braces behind `u`, for a code point. -/
  | braced (first : HexDigit) (more : List HexDigit) (hlast : hexNumber (first :: more) < 0x110000)
  | octal (o : Octal)
  /-- A line end behind a backslash. -/
  | lineEnd (e : LineEnd)

namespace Token

/-- How a token is written. -/
def spelling : Token → Text
  | .raw c _ => [c]
  | .control letter _ _ => [.ofChar '\\', .ofChar letter]
  | .itself c _ => [.ofChar '\\', c]
  | .hexTwo d₁ d₀ => [.ofChar '\\', .ofChar 'x', d₁.codePoint, d₀.codePoint]
  | .hexFour d₃ d₂ d₁ d₀ =>
    [.ofChar '\\', .ofChar 'u', d₃.codePoint, d₂.codePoint, d₁.codePoint, d₀.codePoint]
  | .braced first more _ =>
    [.ofChar '\\', .ofChar 'u', .ofChar '{'] ++ (first :: more).map HexDigit.codePoint ++ [.ofChar '}']
  | .octal o => .ofChar '\\' :: o.digits.map octalDigit
  | .lineEnd e => .ofChar '\\' :: Text.ofChars e.characters

/-- The code units that a token stands for. -/
def units : Token → List Nat
  | .raw c _ => c.units
  | .control _ unit _ => [unit]
  | .itself c _ => c.units
  | .hexTwo d₁ d₀ => [hexNumber [d₁, d₀]]
  | .hexFour d₃ d₂ d₁ d₀ => [hexNumber [d₃, d₂, d₁, d₀]]
  | .braced first more hlast => CodePoint.units ⟨hexNumber (first :: more), hlast⟩
  | .octal o => [o.number]
  | .lineEnd _ => []

/-- Whether a token ends where the next one starts. A raw digit behind an octal escape with room for it
would belong to the escape, and so would a raw line feed behind an escaped carriage return. -/
def mayPrecede : Token → Token → Bool
  | .octal o, .raw c _ => o.isFull || !c.within '0' '7'
  | .lineEnd .carriageReturn, .raw c _ => !c.is '\n'
  | _, _ => true

/-- Whether a token ends where a text starts. -/
def EndsBefore (t : Token) (rest : Text) : Prop :=
  match t with
  | .octal o => o.isFull = false → ∀ c ∈ rest.head?, c.within '0' '7' = false
  | .lineEnd .carriageReturn => ∀ c ∈ rest.head?, c.is '\n' = false
  | _ => True

theorem endsBefore_nil (t : Token) : t.EndsBefore [] := by
  unfold EndsBefore
  split <;> simp

/-- Only raw code points have to be told apart from what they follow; all other tokens start with a
backslash. -/
theorem endsBefore_spelling {t u : Token} (h : t.mayPrecede u = true) (rest : Text) :
    t.EndsBefore (u.spelling ++ rest) := by
  -- a backslash goes on neither with an octal number nor with a line end
  have hdigit : (CodePoint.ofChar '\\').within '0' '7' = false := by decide
  have hfeed : (CodePoint.ofChar '\\').is '\n' = false := by decide
  unfold EndsBefore
  split
  -- an octal token with room for another digit
  · next o =>
    intro hroom c hc
    cases u with
    | raw d hd =>
      simp only [mayPrecede, hroom, Bool.false_or, Bool.not_eq_true'] at h
      simp only [spelling, List.cons_append, List.head?_cons, Option.mem_some_iff] at hc
      rw [← hc, h]
    | _ =>
      simp only [spelling, List.cons_append, List.head?_cons, Option.mem_some_iff] at hc
      rw [← hc, hdigit]
  · intro c hc
    cases u with
    | raw d hd =>
      simp only [mayPrecede, Bool.not_eq_true'] at h
      simp only [spelling, List.cons_append, List.head?_cons, Option.mem_some_iff] at hc
      rw [← hc, h]
    | _ =>
      simp only [spelling, List.cons_append, List.head?_cons, Option.mem_some_iff] at hc
      rw [← hc, hfeed]
  · trivial

end Token

/-! ## Digits -/

theorem numberOf_cons (base value : Nat) (values : List Nat) :
    numberOf base (value :: values) = value * base ^ values.length + numberOf base values := by
  unfold numberOf
  rw [Nat.ofDigits_reverse_cons, Nat.add_comm, Nat.mul_comm]

/-- **Digits.** Where every digit is read as its value, all of them are read as their number. -/
theorem readDigits?_map {δ : Type} {base : Nat} {spell : δ → CodePoint} {value : δ → Nat}
    (h : ∀ d, (spell d).digit? base = some (value d)) (digits : List δ) :
    readDigits? base (digits.map spell) = some (numberOf base (digits.map value)) := by
  -- what was read before moves up by one place with every digit
  have hfold : ∀ n, (digits.map spell).foldlM (fun n c => (c.digit? base).map (n * base + ·)) n =
      some (n * base ^ digits.length + numberOf base (digits.map value)) := by
    induction digits with
    | nil =>
      intro n
      simp [numberOf]
    | cons d digits ih =>
      intro n
      have hstep : (n * base + value d) * base ^ digits.length =
          n * base ^ (digits.length + 1) + value d * base ^ digits.length := by
        rw [Nat.add_mul, Nat.mul_assoc, Nat.pow_succ, Nat.mul_comm base]
      simp only [List.map_cons, List.foldlM_cons, h, Option.map_some, Option.bind_eq_bind, Option.bind_some,
        ih, numberOf_cons, List.length_map, List.length_cons, hstep, Nat.add_assoc]
  have hzero := hfold 0
  rw [Nat.zero_mul, Nat.zero_add] at hzero
  exact hzero

@[simp] theorem HexDigit.digit?_codePoint (d : HexDigit) : d.codePoint.digit? 16 = some d.value.val := by
  obtain ⟨value, isCapital⟩ := d
  revert value isCapital
  decide

theorem HexDigit.is_brace_codePoint (d : HexDigit) : d.codePoint.is '{' = false := by
  obtain ⟨value, isCapital⟩ := d
  revert value isCapital
  decide

@[simp] theorem readDigits?_hex (digits : List HexDigit) :
    readDigits? 16 (digits.map HexDigit.codePoint) = some (hexNumber digits) :=
  readDigits?_map HexDigit.digit?_codePoint digits

theorem digit?_octalDigit : ∀ d : Fin 8, (octalDigit d).digit? 8 = some d.val := by decide

theorem digit?_of_not_within {c : CodePoint} (h : c.within '0' '7' = false) : (c.digit? 8).isSome = false := by
  -- the digits 8 and 9 and the letters have values of eight and more
  rw [CodePoint.within, Bool.and_eq_false_iff, decide_eq_false_iff_not, decide_eq_false_iff_not] at h
  simp only [CodePoint.digit?, CodePoint.within, Char.reduceToNat, Bool.and_eq_true, decide_eq_true_eq] at h ⊢
  split_ifs with hdecimal
  · have hlarge : ¬ c.val - 0x30 < 8 := by omega
    simp [Option.filter, hlarge]
  all_goals simp [Option.filter]

theorem hexNumber_lt (digits : List HexDigit) : hexNumber digits < 16 ^ digits.length := by
  unfold hexNumber numberOf
  have h := Nat.ofDigits_lt_base_pow_length (b := 16) (l := (digits.map fun d => d.value.val).reverse)
    (by decide) (by simp)
  simpa using h

/-- An octal escape stands for a code unit. -/
theorem Octal.number_lt (o : Octal) : o.number < 0x10000 := by
  have hlength : o.digits.length ≤ 3 := by
    have hfits := o.fits
    have hroom : room o.first ≤ 2 := by
      unfold room
      split <;> omega
    simp only [digits, List.length_cons]
    omega
  have hlt : o.number < 8 ^ o.digits.length := by
    unfold number numberOf
    have h := Nat.ofDigits_lt_base_pow_length (b := 8) (l := (o.digits.map Fin.val).reverse)
      (by decide) (by simp)
    simpa using h
  have hpow : 8 ^ o.digits.length ≤ 8 ^ 3 := Nat.pow_le_pow_right (by decide) hlength
  omega

/-- What is taken of a text that starts with digits: the digits, if no more may be taken or none
follows. -/
theorem takeWhile_take_append {p : CodePoint → Bool} {digits rest : Text} {count : Nat}
    (hdigits : ∀ d ∈ digits, p d = true) (hcount : digits.length ≤ count)
    (hrest : digits.length < count → ∀ c ∈ rest.head?, p c = false) :
    ((digits ++ rest).take count).takeWhile p = digits := by
  have hbehind : (rest.take (count - digits.length)).takeWhile p = [] := by
    by_cases hroom : digits.length < count
    · cases rest with
      | nil => simp
      | cons c rest =>
        have hc : p c = false := hrest hroom c rfl
        obtain ⟨more, hmore⟩ : ∃ more, count - digits.length = more + 1 := ⟨count - digits.length - 1, by omega⟩
        simp [hmore, hc]
    · have hnone : count - digits.length = 0 := by omega
      simp [hnone]
  rw [List.take_append, List.take_of_length_le hcount, List.takeWhile_append_of_pos hdigits, hbehind,
    List.append_nil]

/-! ## One token -/

/-- A number up to the last code point has this code point as its value. -/
theorem value_number {n : Nat} (h : n < 0x110000) :
    (Piece.number n).value = .ok [⟨n, h⟩] := by
  simp [Piece.value, CodePoint.ofNat?, h]

theorem units_of_lt {c : CodePoint} (h : c.val < 0x10000) : Text.units [c] = [c.val] := by
  simp [Text.units, CodePoint.units, h]

theorem escape?_control {letter : Char} {unit : Nat} (h : (letter, unit) ∈ controls) (rest : Text) :
    escape? ([.ofChar letter] ++ rest) = some (.number unit, 1) := by
  simp only [controls, List.mem_cons, Prod.mk.injEq, List.not_mem_nil, or_false] at h
  rcases h with ⟨rfl, rfl⟩ | ⟨rfl, rfl⟩ | ⟨rfl, rfl⟩ | ⟨rfl, rfl⟩ | ⟨rfl, rfl⟩ | ⟨rfl, rfl⟩ <;> rfl

/-- A code point that has no meaning behind a backslash stands for itself. -/
theorem escape?_itself {c : CodePoint} (h : ∀ ch ∈ reserved, c.is ch = false) (rest : Text) :
    escape? ([c] ++ rest) = some (.plain c, 1) := by
  have his : ∀ ch ∈ reserved, c.val ≠ ch.toNat := by
    intro ch hch
    have := h ch hch
    simpa [CodePoint.is] using this
  -- no digit from 0 to 7, since each of them is reserved
  have hlow : c.within '0' '3' = false := by
    have h0 := his '0' (by decide)
    have h1 := his '1' (by decide)
    have h2 := his '2' (by decide)
    have h3 := his '3' (by decide)
    simp only [Char.reduceToNat, CodePoint.within, Bool.and_eq_false_iff, decide_eq_false_iff_not] at *
    omega
  have hhigh : c.within '4' '7' = false := by
    have h4 := his '4' (by decide)
    have h5 := his '5' (by decide)
    have h6 := his '6' (by decide)
    have h7 := his '7' (by decide)
    simp only [Char.reduceToNat, CodePoint.within, Bool.and_eq_false_iff, decide_eq_false_iff_not] at *
    omega
  -- no line end and no letter of a control character either
  have hline : (c.val == 0x2028) = false ∧ (c.val == 0x2029) = false :=
    ⟨h '\u2028' (by decide), h '\u2029' (by decide)⟩
  have hcontrol : control? c = none := by
    simp [control?, h 'b' (by decide), h 'f' (by decide), h 'n' (by decide), h 'r' (by decide),
      h 't' (by decide), h 'v' (by decide)]
  simp [escape?, h 'u' (by decide), h 'x' (by decide), hlow, hhigh, h '\n' (by decide), h '\r' (by decide),
    hline, hcontrol]

theorem escape?_hexTwo (d₁ d₀ : HexDigit) (rest : Text) :
    escape? ([.ofChar 'x', d₁.codePoint, d₀.codePoint] ++ rest) = some (.number (hexNumber [d₁, d₀]), 3) := by
  have hread := readDigits?_hex [d₁, d₀]
  simp only [List.map_cons, List.map_nil] at hread
  have hfixed : fixedDigits? 16 2 (d₁.codePoint :: d₀.codePoint :: rest) = some (hexNumber [d₁, d₀]) := by
    simp [fixedDigits?, hread]
  simp only [List.cons_append, List.nil_append, escape?]
  rw [if_neg (by decide), if_pos (by decide), hfixed]

/-- The form with four hexadecimal digits. -/
theorem escape?_hexFour (d₃ d₂ d₁ d₀ : HexDigit) (rest : Text) :
    escape? ([.ofChar 'u', d₃.codePoint, d₂.codePoint, d₁.codePoint, d₀.codePoint] ++ rest) =
      some (.number (hexNumber [d₃, d₂, d₁, d₀]), 5) := by
  have hread := readDigits?_hex [d₃, d₂, d₁, d₀]
  simp only [List.map_cons, List.map_nil] at hread
  have hfixed : fixedDigits? 16 4 (d₃.codePoint :: d₂.codePoint :: d₁.codePoint :: d₀.codePoint :: rest) =
      some (hexNumber [d₃, d₂, d₁, d₀]) := by
    simp [fixedDigits?, hread]
  -- no digit opens an escape in braces
  have hbraced : bracedDigits? (d₃.codePoint :: d₂.codePoint :: d₁.codePoint :: d₀.codePoint :: rest) = none := by
    simp [bracedDigits?, d₃.is_brace_codePoint]
  simp only [List.cons_append, List.nil_append, escape?]
  rw [if_pos (by decide), hbraced]
  simp only [hfixed]

/-- Digits in braces are read as the number that they spell. -/
theorem escape?_braced (first : HexDigit) (more : List HexDigit) (rest : Text) :
    escape? (([.ofChar 'u', .ofChar '{'] ++ (first :: more).map HexDigit.codePoint ++ [.ofChar '}']) ++ rest) =
      some (.number (hexNumber (first :: more)), (first :: more).length + 3) := by
  have hne : ((first :: more).map HexDigit.codePoint).isEmpty = false := rfl
  have hopening : (CodePoint.ofChar '{').is '{' = true := rfl
  have hclosing : (CodePoint.ofChar '}').is '}' = true := rfl
  generalize first :: more = digits at hne
  -- the digits end at the closing brace
  have htaken : (digits.map HexDigit.codePoint ++ .ofChar '}' :: rest).takeWhile
      (fun d => (d.digit? 16).isSome) = digits.map HexDigit.codePoint := by
    rw [List.takeWhile_append_of_pos]
    · simp [CodePoint.digit?, CodePoint.within, CodePoint.ofChar]
    · intro c hc
      obtain ⟨d, -, rfl⟩ := List.mem_map.mp hc
      simp [d.digit?_codePoint]
  -- what stands behind the digits is the closing brace
  have hbraced : bracedDigits? (.ofChar '{' :: (digits.map HexDigit.codePoint ++ .ofChar '}' :: rest)) =
      some (hexNumber digits, digits.length + 2) := by
    have hbehind : (digits.map HexDigit.codePoint ++ .ofChar '}' :: rest).drop digits.length =
        .ofChar '}' :: rest := List.drop_left' (List.length_map _)
    simp only [bracedDigits?, htaken, readDigits?_hex, hbehind, hne, hopening, List.head?_cons,
      Option.any_some, hclosing, Bool.not_false, Bool.and_true, if_true, Option.map_some, List.length_map]
  simp only [List.cons_append, List.nil_append, List.append_assoc, escape?]
  rw [if_pos (by decide), hbraced]

/-- An octal escape takes the digits that it has room for, up to the first code point that is none. -/
theorem octalDigits_digits (o : Octal) {rest : Text} (h : (Token.octal o).EndsBefore rest) :
    octalDigits (room o.first + 1) (o.digits.map octalDigit ++ rest) = (o.number, o.digits.length) := by
  -- the digits of the token are octal, fit into the room, and end where the token ends
  have hall : ∀ c ∈ o.digits.map octalDigit, (c.digit? 8).isSome = true := by
    intro c hc
    obtain ⟨d, -, rfl⟩ := List.mem_map.mp hc
    simp [digit?_octalDigit]
  have hlength : (o.digits.map octalDigit).length = o.more.length + 1 := by
    simp [Octal.digits]
  have hfits : (o.digits.map octalDigit).length ≤ room o.first + 1 := by
    have := o.fits
    omega
  have hends : (o.digits.map octalDigit).length < room o.first + 1 →
      ∀ c ∈ rest.head?, (c.digit? 8).isSome = false := by
    intro hroom c hc
    refine digit?_of_not_within (h ?_ c hc)
    simp only [Octal.isFull, beq_eq_false_iff_ne]
    omega
  have htaken := takeWhile_take_append hall hfits hends
  simp only [octalDigits, htaken, readDigits?_map digit?_octalDigit, Option.getD_some, List.length_map]
  rfl

/-- An octal escape takes all its digits and no more, as a digit that could join them does not follow. -/
theorem escape?_octal (o : Octal) {rest : Text} (h : (Token.octal o).EndsBefore rest) :
    escape? (o.digits.map octalDigit ++ rest) = some (.number o.number, o.digits.length) := by
  have hletter : ∀ d, (octalDigit d).is 'u' = false ∧ (octalDigit d).is 'x' = false := by decide
  have hlow : ∀ d, (octalDigit d).within '0' '3' = decide (d < 4) := by decide
  have hhigh : ∀ d, ¬ d < 4 → (octalDigit d).within '4' '7' = true := by decide
  have hnumber := octalDigits_digits o h
  -- the first digit decides how many may follow
  have hcons : o.digits.map octalDigit ++ rest = octalDigit o.first :: (o.more.map octalDigit ++ rest) := rfl
  rw [hcons] at hnumber ⊢
  simp only [escape?, hletter, Bool.false_eq_true, if_false, hlow]
  by_cases hfirst : o.first < 4
  · have hroom : room o.first + 1 = 3 := by simp [room, hfirst]
    rw [hroom] at hnumber
    simp only [hfirst, decide_true, if_true, hnumber]
  · have hroom : room o.first + 1 = 2 := by simp [room, hfirst]
    rw [hroom] at hnumber
    simp only [hfirst, decide_false, Bool.false_eq_true, if_false, hhigh o.first hfirst, if_true, hnumber]

/-- An escaped line end stands for nothing; a return takes the line feed behind it along. -/
theorem escape?_lineEnd (e : LineEnd) {rest : Text} (h : (Token.lineEnd e).EndsBefore rest) :
    escape? (Text.ofChars e.characters ++ rest) = some (.nothing, e.characters.length) := by
  cases e with
  | carriageReturn =>
    -- without the hypothesis the line feed would belong to the line end
    have hfeed : (rest.head?.any fun c => c.is '\n') = false := by
      cases rest with
      | nil => rfl
      | cons c rest => exact h c rfl
    show escape? (.ofChar '\r' :: rest) = _
    simp only [escape?, hfeed, Bool.and_false, Bool.false_eq_true, if_false]
    rfl
  | _ => rfl

/-- **Step.** A token is read as one piece, whatever stands behind it, and the piece has the code units of
the token. -/
theorem pieces_spelling (t : Token) {rest : Text} (h : t.EndsBefore rest) :
    ∃ piece value, pieces (t.spelling ++ rest) = piece :: pieces rest ∧ Piece.value piece = .ok value ∧
      Text.units value = t.units := by
  -- one reader for each token; the number that it reads is a code unit, or that of a code point in braces
  cases t with
  | raw c hc => exact ⟨.plain c, [c], pieces_cons_of_not_backslash hc rest, rfl, List.append_nil _⟩
  | control letter unit hletter =>
    have hunit : unit < 0x10000 := by
      have hall : ∀ p ∈ controls, p.2 < 0x10000 := by decide
      exact hall _ hletter
    exact ⟨.number unit, _, pieces_escape (escape?_control hletter rest), value_number (by omega),
      units_of_lt hunit⟩
  | itself c hc => exact ⟨.plain c, [c], pieces_escape (escape?_itself hc rest), rfl, List.append_nil _⟩
  | hexTwo d₁ d₀ =>
    have hlt : hexNumber [d₁, d₀] < 16 ^ 2 := hexNumber_lt _
    exact ⟨.number _, _, pieces_escape (escape?_hexTwo d₁ d₀ rest), value_number (by omega),
      units_of_lt (Nat.lt_trans hlt (by decide))⟩
  | hexFour d₃ d₂ d₁ d₀ =>
    have hlt : hexNumber [d₃, d₂, d₁, d₀] < 16 ^ 4 := hexNumber_lt _
    exact ⟨.number _, _, pieces_escape (escape?_hexFour d₃ d₂ d₁ d₀ rest), value_number (by omega),
      units_of_lt hlt⟩
  | braced first more hlast =>
    have hescape := escape?_braced first more rest
    have hlength : (first :: more).length + 3 =
        (([.ofChar 'u', .ofChar '{'] : Text) ++ (first :: more).map HexDigit.codePoint ++
          ([.ofChar '}'] : Text)).length := by
      simp
    rw [hlength] at hescape
    exact ⟨.number _, _, pieces_escape hescape, value_number hlast, List.append_nil _⟩
  | octal o =>
    have hlt := o.number_lt
    have hescape := escape?_octal o h
    rw [← List.length_map (f := octalDigit)] at hescape
    exact ⟨.number o.number, _, pieces_escape hescape, value_number (by omega), units_of_lt hlt⟩
  | lineEnd e =>
    have hescape := escape?_lineEnd e h
    rw [← List.length_map (f := CodePoint.ofChar)] at hescape
    exact ⟨.nothing, [], pieces_escape hescape, rfl, rfl⟩

/-! ## A whole body -/

/-- **Run.** The pieces of a sequence of tokens have values, and together the code units of the tokens. -/
theorem values_pieces_spelling {tokens : List Token} (h : tokens.IsChain fun t u => t.mayPrecede u = true) :
    ∃ value, values (pieces (tokens.flatMap Token.spelling)) = .ok value ∧
      Text.units value = tokens.flatMap Token.units := by
  induction tokens with
  | nil => exact ⟨[], rfl, rfl⟩
  | cons t tokens ih =>
    obtain ⟨others, hothers, hunits⟩ := ih (List.isChain_cons.mp h).2
    have hends : t.EndsBefore (tokens.flatMap Token.spelling) := by
      cases tokens with
      | nil => exact t.endsBefore_nil
      | cons u tokens => exact Token.endsBefore_spelling (List.isChain_cons_cons.mp h).1 _
    obtain ⟨piece, first, hpieces, hfirst, hfirstUnits⟩ := pieces_spelling t hends
    refine ⟨first ++ others, ?_, ?_⟩
    · rw [List.flatMap_cons, hpieces, values, hfirst, hothers]
      rfl
    · rw [Text.units, List.flatMap_append, List.flatMap_cons]
      exact congrArg₂ (· ++ ·) hfirstUnits hunits

/-- **The value of a string literal.** The body of a literal that is a sequence of tokens, each of which ends
where the next one starts, has a value. Its code units are those of the tokens, one after the other, and no
high surrogate in it stands directly before a low one. -/
theorem unescape_spelling (tokens : List Token) (h : tokens.IsChain fun t u => t.mayPrecede u = true) :
    ∃ value, unescape (tokens.flatMap Token.spelling) = .ok value ∧
      value.units = tokens.flatMap Token.units ∧ value.PairFree := by
  obtain ⟨value, hvalue, hunits⟩ := values_pieces_spelling h
  refine ⟨value.joinPairs, ?_, ?_, Text.pairFree_joinPairs value⟩
  · rw [unescape, hvalue]
    rfl
  · rw [Text.units_joinPairs, hunits]

/-- A raw high surrogate before the escape of a low one, a zero before a digit, an escaped carriage return,
and a code point in braces. -/
def mixedTokens : List Token :=
  [.raw ⟨0xD83D, by decide⟩ (by decide), .hexFour ⟨13, true⟩ ⟨14, false⟩ ⟨0, false⟩ ⟨0, false⟩,
    .octal ⟨0, [], by decide⟩, .raw (.ofChar '8') (by decide), .lineEnd .carriageReturn,
    .control 'n' 0x0A (by decide), .braced ⟨0, false⟩ [⟨1, false⟩, ⟨15, true⟩, ⟨6, false⟩, ⟨0, false⟩, ⟨0, false⟩]
      (by decide)]

theorem unescape_spelling_mixedTokens :
    (mixedTokens.IsChain fun t u => t.mayPrecede u = true) ∧
    ∃ value, unescape (mixedTokens.flatMap Token.spelling) = .ok value ∧
      value.units = [0xD83D, 0xDE00, 0, 0x38, 0x0A, 0xD83D, 0xDE00] ∧ value.PairFree := by
  have hchain : mixedTokens.IsChain fun t u => t.mayPrecede u = true := by decide
  have hunits : mixedTokens.flatMap Token.units = [0xD83D, 0xDE00, 0, 0x38, 0x0A, 0xD83D, 0xDE00] := by decide
  obtain ⟨value, hvalue, htokens, hfree⟩ := unescape_spelling mixedTokens hchain
  exact ⟨hchain, value, hvalue, htokens.trans hunits, hfree⟩

end Phrasebook.Escape
