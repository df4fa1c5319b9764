import Mathlib.Data.Nat.Digits.Lemmas
import Phrasebook.Proofs.LiteralValues
import Phrasebook.Proofs.Placeholders
import Phrasebook.Value

/-!
# Phrasebook — the value of an integer literal

An integer literal is a row of digits: in base two, eight or sixteen behind a prefix that names the base, and
without one in base ten. Separators may stand between two digits, and a mark behind the last one.

`Value.number` does not read literals digit by digit. It drops separators and marks wherever they stand, and then
tries what is left as an integer, as a floating point number, and at last as no number at all, so that nothing is
refused. A literal keeps its value on the way because nothing else is dropped from it and the first reading takes
all that is left. Decimals are read as integers up to a number of digits; beyond it they become floating point
numbers.

Main results:

* `Numeral.plain_ofChars` — a numeral in ASCII stays as it is;
* `Numeral.digits?_row` — the number that digits in a row are read as;
* `Numeral.number_of_natural` — where the first reading succeeds, its number is the value;
* `Numeral.number_of_integer` — the value of an integer literal;
* `Numeral.number_of_long` — decimals with too many digits are not read as integers.
-/

namespace Phrasebook.Numeral

/-! ## Literals -/

/-- A digit of a base as it is written. If it is a letter, this may be a capital. -/
structure Digit (base : Nat) extends Escape.HexDigit where
  fits : value.val < base

/-- The character of a digit. -/
def Digit.character {base : Nat} (d : Digit base) : Char :=
  if d.isCapital then (Nat.digitChar d.value).toUpper else Nat.digitChar d.value

/-- Digits in a row, with any number of separators between two of them. -/
structure Row (base : Nat) where
  first : Digit base
  /-- The later digits, each with the number of separators before it. -/
  more : List (Nat × Digit base)

namespace Row

variable {base : Nat}

/-- The digits of a row. -/
def digits (row : Row base) : List (Digit base) := row.first :: row.more.map Prod.snd

/-- The values of the digits, the highest place first. -/
def values (row : Row base) : List Nat := row.digits.map (·.value.val)

/-- The characters of the digits, without separators. -/
def characters (row : Row base) : List Char := row.digits.map Digit.character

/-- A row as it is written. -/
def text (row : Row base) : Text :=
  row.first.codePoint :: row.more.flatMap fun (separators, d) =>
    List.replicate separators (CodePoint.ofChar '_') ++ [d.codePoint]

end Row

/-- The bases that have a prefix. -/
inductive Base where
  | binary
  | octal
  | hexadecimal

namespace Base

def number : Base → Nat
  | .binary => 2
  | .octal => 8
  | .hexadecimal => 16

def letter : Base → Char
  | .binary => 'b'
  | .octal => 'o'
  | .hexadecimal => 'x'

/-- The prefix that names a base; its letter may be a capital. -/
def mark (base : Base) (isCapital : Bool) : List Char :=
  ['0', if isCapital then base.letter.toUpper else base.letter]

end Base

/-- What may stand behind the last digit of an integer. -/
def suffix (isLong : Bool) : Text := if isLong then [CodePoint.ofChar 'n'] else []

/-! ## ASCII -/

/-- A code point of ASCII that no reading drops. -/
def isKept (c : CodePoint) : Bool := c.val < 0x80 && !c.isBlank && !c.is '_' && !c.is 'n'

theorem isKept_iff {c : CodePoint} :
    isKept c = true ↔ c.val < 0x80 ∧ c.isBlank = false ∧ c.is '_' = false ∧ c.is 'n' = false := by
  simp only [isKept, Bool.and_eq_true, decide_eq_true_eq, Bool.not_eq_true', and_assoc]

theorem isKept_codePoint (d : Escape.HexDigit) : isKept d.codePoint = true := by
  obtain ⟨value, isCapital⟩ := d
  revert value isCapital
  decide

theorem isKept_of_mem_mark {base : Base} {isCapital : Bool} {c : Char} (h : c ∈ base.mark isCapital) :
    isKept (.ofChar c) = true := by
  have hall : (base.mark isCapital).all (fun c => isKept (.ofChar c)) = true := by
    cases base <;> cases isCapital <;> decide
  exact List.all_eq_true.mp hall c h

/-- No digit of a script beyond ASCII is in ASCII. -/
theorem decimal?_of_not_within {c : CodePoint} (hascii : c.val < 0x80) (h : c.within '0' '9' = false) :
    c.decimal? = none := by
  have hbeyond : ∀ start ∈ zeroDigits, 0x80 ≤ start := by decide
  rw [CodePoint.decimal?, if_neg (ne_true_of_eq_false h), Option.map_eq_none_iff,
    List.find?_eq_none]
  intro start hstart
  have := hbeyond start hstart
  simp only [Bool.and_eq_true, decide_eq_true_eq]
  omega

theorem digitChar_of_within {c : Char} (h : (CodePoint.ofChar c).within '0' '9' = true) :
    Nat.digitChar ((CodePoint.ofChar c).val - 0x30) = c := by
  have hdigits : ∀ d < 10, Nat.digitChar d = Char.ofNat (d + 0x30) := by decide
  simp only [CodePoint.within, Bool.and_eq_true, decide_eq_true_eq, Char.reduceToNat] at h
  rw [hdigits _ (by omega), Nat.sub_add_cancel h.1]
  exact Char.ofNat_toNat c

/-- **ASCII.** A numeral in ASCII stays as it is. -/
theorem plain_ofChars {cs : List Char} (h : ∀ c ∈ cs, (CodePoint.ofChar c).val < 0x80) :
    plain (Text.ofChars cs) = cs := by
  induction cs with
  | nil => rfl
  | cons c cs ih =>
    obtain ⟨hc, hcs⟩ := List.forall_mem_cons.mp h
    have hrest : plain (Text.ofChars cs) = cs := ih hcs
    rw [plain, Text.ofChars] at hrest ⊢
    rw [List.map_cons, List.map_cons, hrest]
    refine congrArg (· :: cs) ?_
    cases hdigit : (CodePoint.ofChar c).within '0' '9' with
    | true =>
      rw [CodePoint.decimal?, if_pos hdigit]
      exact digitChar_of_within hdigit
    | false =>
      rw [decimal?_of_not_within hc hdigit]
      exact (if_pos hc).trans (Char.ofNat_toNat c)

theorem strip_of_isKept {t : Text} (h : ∀ c ∈ t, isKept c = true) : t.strip = t := by
  have hblank : ∀ c ∈ t, c.isBlank = false := fun c hc => (isKept_iff.mp (h c hc)).2.1
  have htrims : t.Trims t :=
    ⟨⟨[], [], by simp, by simp, by simp⟩, fun c hc => hblank c (List.mem_of_mem_head? hc),
      fun c hc => hblank c (List.mem_of_mem_getLast? hc)⟩
  exact (Text.trims_iff.mp htrims).symm

/-- The suffix of a long integer is dropped from its spelling, and nothing else is. -/
theorem dropEndWhile_suffix {t : Text} (h : ∀ c ∈ t, isKept c = true) (isLong : Bool) :
    Text.dropEndWhile (·.is 'n') (t ++ suffix isLong) = t := by
  have hlast : ∀ c ∈ t.reverse, c.is 'n' = false := fun c hc => (isKept_iff.mp (h c (List.mem_reverse.mp hc))).2.2.2
  have hdrop : t.reverse.dropWhile (·.is 'n') = t.reverse := by
    refine List.dropWhile_eq_self_iff.mpr fun hlt => ?_
    exact ne_true_of_eq_false (hlast _ (List.getElem_mem hlt))
  cases isLong with
  | false => rw [suffix, if_neg Bool.false_ne_true, List.append_nil, Text.dropEndWhile, hdrop, List.reverse_reverse]
  | true =>
    rw [suffix, if_pos rfl, Text.dropEndWhile, List.reverse_append, List.reverse_singleton, List.singleton_append,
      List.dropWhile_cons_of_pos (by decide), hdrop, List.reverse_reverse]

/-! ## Rows of digits -/

namespace Row

variable {base : Nat} (row : Row base)

theorem characters_ne_nil : row.characters ≠ [] := List.cons_ne_nil _ _

theorem length_characters : row.characters.length = row.values.length := by
  rw [characters, values, List.length_map, List.length_map]

theorem isKept_of_mem {c : Char} (h : c ∈ row.characters) : isKept (.ofChar c) = true := by
  obtain ⟨d, -, rfl⟩ := List.mem_map.mp h
  exact isKept_codePoint d.toHexDigit

/-- Without separators, the digits are left. -/
theorem filter_text : row.text.filter (fun c => !c.is '_') = Text.ofChars row.characters := by
  -- digits stay, separators go
  have hdigit : ∀ d : Digit base, d.codePoint.is '_' = false :=
    fun d => (isKept_iff.mp (isKept_codePoint d.toHexDigit)).2.2.1
  have hgap : ∀ separators : Nat,
      (List.replicate separators (CodePoint.ofChar '_')).filter (fun c => !c.is '_') = [] :=
    fun separators => List.filter_replicate_of_neg (by decide)
  -- and so for each digit with the separators before it
  have hmore : ∀ more : List (Nat × Digit base),
      (more.flatMap fun (separators, d) => List.replicate separators (CodePoint.ofChar '_') ++ [d.codePoint]).filter
        (fun c => !c.is '_') = more.map (·.2.codePoint) := by
    intro more
    induction more with
    | nil => rfl
    | cons d more ih =>
      simp only [List.flatMap_cons, List.filter_append, hgap, List.filter_cons, hdigit, Bool.not_false, if_true,
        List.filter_nil, ih, List.nil_append, List.singleton_append, List.map_cons]
  simp only [text, List.filter_cons, hdigit, Bool.not_false, if_true, hmore, Text.ofChars, characters, digits,
    List.map_cons, List.map_map]
  rfl

end Row

/-- A digit of a base is read as its value. -/
theorem digit?_codePoint {base : Nat} (d : Digit base) : d.codePoint.digit? base = some d.value.val := by
  have hsixteen := Escape.HexDigit.digit?_codePoint d.toHexDigit
  rw [CodePoint.digit?, Option.filter_eq_some_iff] at hsixteen ⊢
  exact ⟨hsixteen.1, decide_eq_true d.fits⟩

/-- **Digits in a row** are read as the number that they stand for. -/
theorem digits?_row {base : Nat} (row : Row base) :
    digits? base row.characters = some (Escape.numberOf base row.values) := by
  have hread := Escape.readDigits?_map digit?_codePoint row.digits
  rw [digits?, if_neg (by rw [List.isEmpty_iff]; exact row.characters_ne_nil)]
  rw [Escape.readDigits?, List.foldlM_map] at hread
  rw [Row.characters, List.foldlM_map]
  exact hread

/-! ## Reading -/

theorem sign_of_isDigit {cs : List Char} (h : ∀ c ∈ cs.head?, c.isDigit = true) : sign cs = (false, cs) := by
  unfold sign
  split
  · exact absurd (h '-' rfl) (by decide)
  · exact absurd (h '+' rfl) (by decide)
  · rfl

/-- **Reading what is left.** Where a text without separators and mark is a numeral in ASCII that starts with a digit,
it is read as an integer if the numeral stands for a number. -/
theorem integer?_left {t : Text} {cs : List Char} (hkept : ∀ c ∈ cs, isKept (.ofChar c) = true)
    (hfirst : ∀ c ∈ cs.head?, c.isDigit = true) (hleft : t.filter (fun c => !c.is '_') = Text.ofChars cs)
    (isLong : Bool) :
    integer? (Text.dropEndWhile (·.is 'n') ((t ++ suffix isLong).filter fun c => !c.is '_')) =
      (natural? cs).map Int.ofNat := by
  have hall : ∀ c ∈ Text.ofChars cs, isKept c = true := by
    intro c hc
    obtain ⟨d, hd, rfl⟩ := List.mem_map.mp hc
    exact hkept d hd
  have hsuffix : (suffix isLong).filter (fun c => !c.is '_') = suffix isLong := by cases isLong <;> decide
  rw [List.filter_append, hleft, hsuffix, dropEndWhile_suffix hall, integer?, strip_of_isKept hall,
    plain_ofChars fun c hc => (isKept_iff.mp (hkept c hc)).1, sign_of_isDigit hfirst]
  cases hnatural : natural? cs with
  | none => simp [hnatural]
  | some n => simp [hnatural]

/-- **The first reading.** Where what is left stands for a number, this is the value. -/
theorem number_of_natural {t : Text} {cs : List Char} {n : Nat} (hkept : ∀ c ∈ cs, isKept (.ofChar c) = true)
    (hfirst : ∀ c ∈ cs.head?, c.isDigit = true) (hleft : t.filter (fun c => !c.is '_') = Text.ofChars cs)
    (hnatural : natural? cs = some n) (isLong : Bool) : Value.number (t ++ suffix isLong) = .int n := by
  have hinteger := integer?_left hkept hfirst hleft isLong
  rw [hnatural, Option.map_some] at hinteger
  simp only [Value.number, hinteger]
  rfl

/-- Behind a prefix, the digits are read in its base. -/
theorem natural?_mark (base : Base) (isCapital : Bool) (cs : List Char) :
    natural? (base.mark isCapital ++ cs) = digits? base.number cs := by
  cases base <;> cases isCapital <;> rfl

/-- Decimal digits are read in base ten, unless there are too many, or the first of them is a zero and another one is
not. -/
theorem natural?_decimal {cs : List Char} (h : ∀ c ∈ cs, c.isDigit = true) :
    natural? cs =
      if maxDigits < cs.length then none
      else if cs.head? == some '0' && !cs.all (· == '0') then none
      else digits? 10 cs := by
  have hletter : ∀ {c d : Char} {rest : List Char}, d.isDigit = false → cs ≠ c :: d :: rest := by
    rintro c d rest hd rfl
    rw [h d (by simp)] at hd
    cases hd
  -- no digit is the letter of a prefix, so that only the last form fits
  unfold natural?
  split
  · exact absurd rfl (hletter (by decide))
  · exact absurd rfl (hletter (by decide))
  · exact absurd rfl (hletter (by decide))
  · exact absurd rfl (hletter (by decide))
  · exact absurd rfl (hletter (by decide))
  · exact absurd rfl (hletter (by decide))
  · rfl

namespace Row

variable (row : Row 10)

theorem isDigit_of_mem {c : Char} (h : c ∈ row.characters) : c.isDigit = true := by
  have hall : ∀ (value : Fin 16) (isCapital : Bool), value.val < 10 →
      (if isCapital then (Nat.digitChar value).toUpper else Nat.digitChar value).isDigit = true := by decide
  obtain ⟨d, -, rfl⟩ := List.mem_map.mp h
  exact hall d.value d.isCapital d.fits

theorem isDigit_of_mem_head? {c : Char} (h : c ∈ row.characters.head?) : c.isDigit = true :=
  row.isDigit_of_mem (List.mem_of_mem_head? h)

theorem character_eq_zero_iff (d : Digit 10) : d.character = '0' ↔ d.value.val = 0 := by
  have hall : ∀ (value : Fin 16) (isCapital : Bool), value.val < 10 →
      ((if isCapital then (Nat.digitChar value).toUpper else Nat.digitChar value) = '0' ↔ value.val = 0) := by
    decide
  exact hall d.value d.isCapital d.fits

/-- A row of decimal digits is read as their number if there are not too many, and the first is no zero or all
are. -/
theorem natural?_row (hmax : row.values.length ≤ maxDigits)
    (hzero : row.values.head? ≠ some 0 ∨ ∀ value ∈ row.values, value = 0) :
    natural? row.characters = some (Escape.numberOf 10 row.values) := by
  have hrefused : (row.characters.head? == some '0' && !row.characters.all (· == '0')) = false := by
    rw [Bool.and_eq_false_iff, Bool.not_eq_false', beq_eq_false_iff_ne, List.all_eq_true]
    rcases hzero with hfirst | hall
    · refine .inl fun hhead => hfirst ?_
      rw [characters, digits, List.map_cons, List.head?_cons, Option.some.injEq, character_eq_zero_iff] at hhead
      rw [values, digits, List.map_cons, List.head?_cons, hhead]
    · refine .inr fun c hc => ?_
      obtain ⟨d, hd, rfl⟩ := List.mem_map.mp hc
      rw [beq_iff_eq, character_eq_zero_iff]
      exact hall _ (List.mem_map_of_mem hd)
  rw [natural?_decimal fun c => row.isDigit_of_mem, row.length_characters, if_neg (Nat.not_lt.mpr hmax), hrefused,
    if_neg Bool.false_ne_true, digits?_row]

end Row

/-! ## Literals -/

/-- The number of digits that are those of a number behind any number of zeros. -/
theorem numberOf_digits (base zeros n : Nat) :
    Escape.numberOf base (List.replicate zeros 0 ++ (Nat.digits base n).reverse) = n := by
  rw [Escape.numberOf, List.reverse_append, List.reverse_reverse, List.reverse_replicate,
    Nat.ofDigits_append_replicate_zero, Nat.ofDigits_digits]

/-- The digits of a number do not start with a zero. -/
theorem head?_reverse_digits (n : Nat) : (Nat.digits 10 n).reverse.head? ≠ some 0 := by
  intro hhead
  rw [List.head?_reverse] at hhead
  have hne : Nat.digits 10 n ≠ [] := by
    rintro hnil
    rw [hnil] at hhead
    cases hhead
  have hn : n ≠ 0 := Nat.digits_ne_nil_iff_ne_zero.mp hne
  rw [List.getLast?_eq_some_getLast hne, Option.some.injEq] at hhead
  exact Nat.getLast_digit_ne_zero 10 hn hhead

/-- **The value of a decimal.** -/
theorem number_of_row (row : Row 10) (hmax : row.values.length ≤ maxDigits)
    (hzero : row.values.head? ≠ some 0 ∨ ∀ value ∈ row.values, value = 0) (isLong : Bool) :
    Value.number (row.text ++ suffix isLong) = .int (Escape.numberOf 10 row.values) :=
  number_of_natural (fun _ => row.isKept_of_mem) (fun _ => row.isDigit_of_mem_head?) row.filter_text
    (row.natural?_row hmax hzero) isLong

/-- **The value of a row of digits behind a prefix.** -/
theorem number_of_mark (base : Base) (isCapital : Bool) (row : Row base.number) (isLong : Bool) :
    Value.number (Text.ofChars (base.mark isCapital) ++ row.text ++ suffix isLong) =
      .int (Escape.numberOf base.number row.values) := by
  have hmark : (Text.ofChars (base.mark isCapital)).filter (fun c => !c.is '_') =
      Text.ofChars (base.mark isCapital) := by
    cases base <;> cases isCapital <;> decide
  have hkept : ∀ c ∈ base.mark isCapital ++ row.characters, isKept (.ofChar c) = true :=
    List.forall_mem_append.mpr ⟨fun _ => isKept_of_mem_mark, fun _ => row.isKept_of_mem⟩
  have hfirst : ∀ c ∈ (base.mark isCapital ++ row.characters).head?, c.isDigit = true := by
    intro c hc
    cases hc
    rfl
  have hleft : (Text.ofChars (base.mark isCapital) ++ row.text).filter (fun c => !c.is '_') =
      Text.ofChars (base.mark isCapital ++ row.characters) := by
    rw [List.filter_append, hmark, row.filter_text]
    exact List.map_append.symm
  exact number_of_natural hkept hfirst hleft ((natural?_mark base isCapital _).trans (digits?_row row)) isLong

/-- **The value of an integer literal.** The digits of a number have this number as their value: in base two, eight
or sixteen behind a prefix and any number of zeros, and in base ten as they are, if they are not too many. Separators
between digits, capitals and a mark at the end make no difference. A decimal of zeros only is zero. -/
theorem number_of_integer (n : Nat) :
    (∀ (base : Base) (row : Row base.number) (zeros : Nat),
      row.values = List.replicate zeros 0 ++ (Nat.digits base.number n).reverse → ∀ isCapital isLong,
        Value.number (Text.ofChars (base.mark isCapital) ++ row.text ++ suffix isLong) = .int n) ∧
    (∀ row : Row 10, row.values = (Nat.digits 10 n).reverse → row.values.length ≤ maxDigits → ∀ isLong,
      Value.number (row.text ++ suffix isLong) = .int n) ∧
    (∀ row : Row 10, (∀ value ∈ row.values, value = 0) → row.values.length ≤ maxDigits → ∀ isLong,
      Value.number (row.text ++ suffix isLong) = .int 0) := by
  refine ⟨?_, ?_, ?_⟩
  · intro base row zeros hvalues isCapital isLong
    -- zeros in front do not count, and the digits spell the number
    rw [number_of_mark, hvalues, numberOf_digits]
  · intro row hvalues hmax isLong
    -- a decimal may not start with a zero, unless it has nothing else
    have hfirst : row.values.head? ≠ some 0 := by
      rw [hvalues]
      exact head?_reverse_digits n
    have hnumber := numberOf_digits 10 0 n
    rw [List.replicate_zero, List.nil_append] at hnumber
    rw [number_of_row row hmax (.inl hfirst), hvalues, hnumber]
  · intro row hzeros hmax isLong
    -- zeros only: the digits of the number zero, with zeros before them
    have hnumber := numberOf_digits 10 row.values.length 0
    rw [Nat.digits_zero, List.reverse_nil, List.append_nil, ← List.eq_replicate_iff.mpr ⟨rfl, hzeros⟩] at hnumber
    rw [number_of_row row hmax (.inr hzeros), hnumber]
    rfl

/-- A digit of base sixteen, as a capital if it is a letter and `isCapital` holds. -/
def hexDigit (value : Fin 16) (isCapital : Bool) : Digit 16 := ⟨⟨value, isCapital⟩, value.isLt⟩

/-- A decimal digit. -/
def decimalDigit (value : Fin 10) : Digit 10 := ⟨⟨⟨value.val, by omega⟩, false⟩, value.isLt⟩

/-- The literals `0X0_fF__0n`, `1_0` and `0_0n`. -/
theorem number_of_integer_separated :
    Value.number (Text.ofChars ['0', 'X', '0', '_', 'f', 'F', '_', '_', '0', 'n']) = .int 4080 ∧
    Value.number (Text.ofChars ['1', '_', '0']) = .int 10 ∧
    Value.number (Text.ofChars ['0', '_', '0', 'n']) = .int 0 := by
  obtain ⟨hmark, -, -⟩ := number_of_integer 4080
  obtain ⟨-, hdecimal, hzeros⟩ := number_of_integer 10
  have hhex := hmark .hexadecimal
    ⟨hexDigit 0 false, [(1, hexDigit 15 false), (0, hexDigit 15 true), (2, hexDigit 0 false)]⟩ 1
    (by simp [Row.values, Row.digits, hexDigit, Base.number]) true true
  have hten := hdecimal ⟨decimalDigit 1, [(1, decimalDigit 0)]⟩ (by simp [Row.values, Row.digits, decimalDigit])
    (by decide) false
  have hzero := hzeros ⟨decimalDigit 0, [(1, decimalDigit 0)]⟩ (by simp [Row.values, Row.digits, decimalDigit])
    (by decide) true
  exact ⟨hhex, hten, hzero⟩

/-- **Too many digits.** A decimal with more digits is not read as an integer. -/
theorem number_of_long (row : Row 10) (hlong : maxDigits < row.values.length) (isLong : Bool) (n : Int) :
    Value.number (row.text ++ suffix isLong) ≠ .int n := by
  have hnone : natural? row.characters = none := by
    rw [natural?_decimal fun c => row.isDigit_of_mem, row.length_characters, if_pos hlong]
  have hinteger :=
    integer?_left (fun _ => row.isKept_of_mem) (fun _ => row.isDigit_of_mem_head?) row.filter_text isLong
  rw [hnone, Option.map_none] at hinteger
  simp only [Value.number, hinteger]
  split <;> exact Value.noConfusion

end Phrasebook.Numeral
