import Phrasebook.Template

/-!
# Phrasebook — quoted strings

A quoted string of a template is read back like the body of a string literal of a script: `Escape`
cuts it into pieces, and every code point of the text has become exactly one piece. Between its quotes
a quoted string holds no line feed and no surrogate, whatever the text holds.

Main results:

* `Template.exists_piece_quotedCodePoint` — every code point becomes one piece;
* `Template.values_pieces_quoted` — the pieces between the quotes give back the text;
* `Template.mem_quote`, `Template.mem_escapeSurrogates` — what strings and comments are written with.
-/

namespace Phrasebook

theorem CodePoint.ext_val {a b : CodePoint} (h : a.val = b.val) : a = b := by
  cases a
  cases b
  cases h
  rfl

@[simp] theorem CodePoint.is_iff {c : CodePoint} {ch : Char} : c.is ch = true ↔ c = .ofChar ch := by
  rw [is, beq_iff_eq]
  constructor
  · intro h
    exact ext_val h
  · intro h
    rw [h]
    rfl

@[simp] theorem CodePoint.is_eq_false_iff {c : CodePoint} {ch : Char} : c.is ch = false ↔ c ≠ .ofChar ch := by
  rw [Bool.eq_false_iff, ne_eq, is_iff]

/-- Characters are no surrogates. -/
@[simp] theorem CodePoint.isSurrogate_ofChar (c : Char) : (ofChar c).isSurrogate = false := by
  have hvalid := c.valid
  simp only [UInt32.isValidChar, Nat.isValidChar] at hvalid
  rw [isSurrogate, Bool.and_eq_false_iff, decide_eq_false_iff_not, decide_eq_false_iff_not]
  show ¬ 0xD800 ≤ c.val.toNat ∨ ¬ c.val.toNat ≤ 0xDFFF
  omega

@[simp] theorem CodePoint.toChar?_ofChar (c : Char) : (ofChar c).toChar? = some c := by
  have hvalid : (ofChar c).val.isValidChar := c.valid
  rw [toChar?, dif_pos hvalid]
  rfl

@[simp] theorem Text.toChars?_ofChars (cs : List Char) : (ofChars cs).toChars? = some cs := by
  induction cs with
  | nil => rfl
  | cons c cs ih =>
    rw [toChars?, ofChars] at ih
    rw [toChars?, ofChars, List.map_cons, List.mapM_cons, CodePoint.toChar?_ofChar, ih]
    rfl

theorem Text.forall_is_eq_false_iff {ch : Char} {t : Text} :
    (∀ c ∈ t, c.is ch = false) ↔ .ofChar ch ∉ t := by
  simp only [CodePoint.is_eq_false_iff]
  constructor
  · intro h hmem
    exact h _ hmem rfl
  · rintro h c hc rfl
    exact h hc

theorem Text.not_is_of_not_mem {ch : Char} {t : Text} (h : .ofChar ch ∉ t) : ∀ c ∈ t, (!c.is ch) = true := by
  simpa only [Bool.not_eq_true'] using forall_is_eq_false_iff.mpr h

/-- What stands before the first `ch`. -/
theorem Text.takeWhile_append_mark {ch : Char} {before : Text} (h : .ofChar ch ∉ before) (rest : Text) :
    (before ++ .ofChar ch :: rest).takeWhile (!·.is ch) = before := by
  rw [List.takeWhile_append_of_pos (not_is_of_not_mem h), List.takeWhile_cons_of_neg (by simp), List.append_nil]

/-- What stands from the first `ch` on. -/
theorem Text.dropWhile_append_mark {ch : Char} {before : Text} (h : .ofChar ch ∉ before) (rest : Text) :
    (before ++ .ofChar ch :: rest).dropWhile (!·.is ch) = .ofChar ch :: rest := by
  rw [List.dropWhile_append_of_pos (not_is_of_not_mem h), List.dropWhile_cons_of_neg (by simp)]

namespace Escape

/-! ## Pieces of a longer body -/

theorem piecesFrom_append (taken body : Text) :
    piecesFrom taken.length (taken ++ body) = pieces body := by
  induction taken with
  | nil => rfl
  | cons c taken ih => exact ih

theorem pieces_cons_of_not_backslash {c : CodePoint} (h : c.is '\\' = false) (body : Text) :
    pieces (c :: body) = .plain c :: pieces body := by
  rw [pieces, piecesFrom, if_neg (ne_true_of_eq_false h)]
  rfl

theorem pieces_escape {taken : Text} {piece : Piece} {body : Text}
    (h : escape? (taken ++ body) = some (piece, taken.length)) :
    pieces (.ofChar '\\' :: (taken ++ body)) = piece :: pieces body := by
  rw [pieces, piecesFrom, if_pos (by rfl), h]
  exact congrArg (piece :: ·) (piecesFrom_append taken body)

/-! ## Four hexadecimal digits -/

theorem digit?_digitChar :
    ∀ d, d < 16 → (CodePoint.ofChar (Nat.digitChar d)).digit? 16 = some d := by
  decide

theorem is_brace_digitChar : ∀ d, d < 16 → (CodePoint.ofChar (Nat.digitChar d)).is '{' = false := by
  decide

/-- The digits of a number below `0x10000`, written with four places. -/
theorem hex_four {n : Nat} (h : n < 0x10000) :
    Value.hex 4 n =
      [n / 4096, n / 256 % 16, n / 16 % 16, n % 16].map Nat.digitChar := by
  have hstep : ∀ m, 16 ≤ m → Nat.toDigits 16 m = Nat.toDigits 16 (m / 16) ++ [Nat.digitChar (m % 16)] :=
    fun m hm => Nat.toDigits_of_base_le (by decide) hm
  have hlast : ∀ m, m < 16 → Nat.toDigits 16 m = [Nat.digitChar m] :=
    fun m hm => Nat.toDigits_of_lt_base hm
  -- the number of digits decides how many zeros are put before them
  have h2 : n / 16 / 16 = n / 256 := by omega
  have h3 : n / 256 / 16 = n / 4096 := by omega
  unfold Value.hex
  by_cases h1000 : 4096 ≤ n
  · rw [hstep n (by omega), hstep (n / 16) (by omega), h2, hstep (n / 256) (by omega), h3,
      hlast (n / 4096) (by omega)]
    rfl
  have hd3 : n / 4096 = 0 := by omega
  by_cases h100 : 256 ≤ n
  · rw [hstep n (by omega), hstep (n / 16) (by omega), h2, hlast (n / 256) (by omega), hd3,
      Nat.mod_eq_of_lt (show n / 256 < 16 by omega)]
    rfl
  have hd2 : n / 256 = 0 := by omega
  by_cases h10 : 16 ≤ n
  · rw [hstep n (by omega), hlast (n / 16) (by omega), hd3, hd2,
      Nat.mod_eq_of_lt (show n / 16 < 16 by omega)]
    rfl
  have hd1 : n / 16 = 0 := by omega
  rw [hlast n (by omega), hd3, hd2, hd1, Nat.mod_eq_of_lt (show n < 16 by omega)]
  rfl

/-- A number written with four digits behind `u` is read as that number. -/
theorem escape?_hex_four {n : Nat} (h : n < 0x10000) (body : Text) :
    escape? ((.ofChar 'u' :: Text.ofChars (Value.hex 4 n)) ++ body) = some (.number n, 5) := by
  have hd3 := digit?_digitChar (n / 4096) (by omega)
  have hd2 := digit?_digitChar (n / 256 % 16) (by omega)
  have hd1 := digit?_digitChar (n / 16 % 16) (by omega)
  have hd0 := digit?_digitChar (n % 16) (by omega)
  -- no digit opens an escape in braces
  have hbrace := is_brace_digitChar (n / 4096) (by omega)
  have hvalue : ((n / 4096 * 16 + n / 256 % 16) * 16 + n / 16 % 16) * 16 + n % 16 = n := by omega
  rw [hex_four h]
  simp only [Text.ofChars, List.map_cons, List.map_nil, List.cons_append, List.nil_append, escape?]
  rw [if_pos (by rfl), bracedDigits?]
  simp only [hbrace, Bool.false_and, Bool.false_eq_true, if_false]
  simp [fixedDigits?, readDigits?, hd3, hd2, hd1, hd0, hvalue]

end Escape

namespace Template

open Escape

/-! ## What becomes of a code point -/

/-- The letters that stand behind a backslash, with the code points that they write. -/
def letters : List (Char × CodePoint) :=
  [('\x22', .ofChar '\x22'), ('\\', .ofChar '\\'), ('n', .ofChar '\n'), ('r', .ofChar '\r'),
    ('t', .ofChar '\t'), ('f', .ofChar '\x0C'), ('b', .ofChar '\x08')]

/-- The three forms of a code point in a quoted string: a letter behind a backslash, the number of a
control character, and the form that it has in a comment. -/
theorem quotedCodePoint_cases (c : CodePoint) :
    (∃ letter, (letter, c) ∈ letters ∧ quotedCodePoint c = [.ofChar '\\', .ofChar letter]) ∨
    (c.val < 0x20 ∧ quotedCodePoint c = ("\\u" : Text) ++ Text.ofChars (Value.hex 4 c.val)) ∨
    (0x20 ≤ c.val ∧ c.is '\\' = false ∧ quotedCodePoint c = writable c) := by
  -- one argument for the seven letters
  have hletter : ∀ {ch letter : Char}, c.is ch = true → (letter, CodePoint.ofChar ch) ∈ letters →
      quotedCodePoint (.ofChar ch) = [.ofChar '\\', .ofChar letter] →
      ∃ letter, (letter, c) ∈ letters ∧ quotedCodePoint c = [.ofChar '\\', .ofChar letter] := by
    intro ch letter hc hmem hquoted
    rw [CodePoint.is_iff.mp hc]
    exact ⟨letter, hmem, hquoted⟩
  by_cases hquote : c.is '\x22' = true
  · exact Or.inl (hletter hquote (by decide) rfl)
  by_cases hbackslash : c.is '\\' = true
  · exact Or.inl (hletter hbackslash (by decide) rfl)
  by_cases hn : c.is '\n' = true
  · exact Or.inl (hletter hn (by decide) rfl)
  by_cases hr : c.is '\r' = true
  · exact Or.inl (hletter hr (by decide) rfl)
  by_cases ht : c.is '\t' = true
  · exact Or.inl (hletter ht (by decide) rfl)
  by_cases hf : (c.val == 0x0C) = true
  · have hform : c.is '\x0C' = true := hf
    exact Or.inl (hletter hform (by decide) rfl)
  by_cases hb : (c.val == 0x08) = true
  · have hback : c.is '\x08' = true := hb
    exact Or.inl (hletter hback (by decide) rfl)
  have hrest : quotedCodePoint c =
      if c.val < 0x20 then ("\\u" : Text) ++ Text.ofChars (Value.hex 4 c.val) else writable c := by
    rw [quotedCodePoint, if_neg hquote, if_neg hbackslash, if_neg hn, if_neg hr, if_neg ht,
      if_neg hf, if_neg hb]
  by_cases hlow : c.val < 0x20
  · rw [if_pos hlow] at hrest
    exact Or.inr (Or.inl ⟨hlow, hrest⟩)
  · rw [if_neg hlow] at hrest
    exact Or.inr (Or.inr ⟨by omega, Bool.eq_false_iff.mpr hbackslash, hrest⟩)

/-! ## Reading back -/

private theorem pieces_hex_escape {c : CodePoint} (h : c.val < 0x10000) (body : Text) :
    pieces ((("\\u" : Text) ++ Text.ofChars (Value.hex 4 c.val)) ++ body) =
      .number c.val :: pieces body := by
  have hlength : (CodePoint.ofChar 'u' :: Text.ofChars (Value.hex 4 c.val)).length = 5 := by
    rw [hex_four h]
    rfl
  have hescape := escape?_hex_four h body
  rw [← hlength] at hescape
  exact pieces_escape hescape

private theorem number_value (c : CodePoint) : (Piece.number c.val).value = .ok [c] := by
  simp [Piece.value, CodePoint.ofNat?, c.isLt]

/-- A backslash and one of the letters is read as the code point that it was written for. -/
private theorem escape?_letter {letter : Char} {c : CodePoint} (h : (letter, c) ∈ letters) :
    ∃ piece : Piece, piece.value = .ok [c] ∧
      ∀ body, escape? ([.ofChar letter] ++ body) = some (piece, 1) := by
  simp only [letters, List.mem_cons, Prod.mk.injEq, List.not_mem_nil, or_false] at h
  rcases h with ⟨rfl, rfl⟩ | ⟨rfl, rfl⟩ | ⟨rfl, rfl⟩ | ⟨rfl, rfl⟩ | ⟨rfl, rfl⟩ | ⟨rfl, rfl⟩ | ⟨rfl, rfl⟩
  · exact ⟨.plain (.ofChar '\x22'), rfl, fun _ => rfl⟩
  · exact ⟨.plain (.ofChar '\\'), rfl, fun _ => rfl⟩
  · exact ⟨.number 0x0A, rfl, fun _ => rfl⟩
  · exact ⟨.number 0x0D, rfl, fun _ => rfl⟩
  · exact ⟨.number 0x09, rfl, fun _ => rfl⟩
  · exact ⟨.number 0x0C, rfl, fun _ => rfl⟩
  · exact ⟨.number 0x08, rfl, fun _ => rfl⟩

/-- A surrogate is written as an escape, every other code point as itself, and both give back the code
point. -/
theorem exists_piece_writable {c : CodePoint} (h : c.is '\\' = false) :
    ∃ piece, Piece.value piece = .ok [c] ∧
      ∀ body, pieces (writable c ++ body) = piece :: pieces body := by
  rw [writable]
  split
  · next hsurrogate =>
    -- surrogates have four digits
    have hlt : c.val < 0x10000 := by
      simp only [CodePoint.isSurrogate, Bool.and_eq_true, decide_eq_true_eq] at hsurrogate
      omega
    exact ⟨.number c.val, number_value c, fun body => pieces_hex_escape hlt body⟩
  · exact ⟨.plain c, rfl, fun body => pieces_cons_of_not_backslash h body⟩

/-- **One code point, one piece.** Whatever a code point becomes inside a quoted string is read as one
piece, and its value is the code point. -/
theorem exists_piece_quotedCodePoint (c : CodePoint) :
    ∃ piece, Piece.value piece = .ok [c] ∧
      ∀ body, pieces (quotedCodePoint c ++ body) = piece :: pieces body := by
  rcases quotedCodePoint_cases c with ⟨letter, hletter, hform⟩ | ⟨hlow, hform⟩ | ⟨-, hbackslash, hform⟩
  · obtain ⟨piece, hvalue, hescape⟩ := escape?_letter hletter
    refine ⟨piece, hvalue, ?_⟩
    intro body
    rw [hform]
    exact pieces_escape (hescape body)
  · refine ⟨.number c.val, number_value c, ?_⟩
    intro body
    rw [hform]
    exact pieces_hex_escape (by omega) body
  · rw [hform]
    exact exists_piece_writable hbackslash

/-- **Quoting is undone by reading.** The pieces between the quotes give back the text, surrogates and
all. -/
theorem values_pieces_quoted (t : Text) : values (pieces (t.flatMap quotedCodePoint)) = .ok t := by
  induction t with
  | nil => rfl
  | cons c t ih =>
    obtain ⟨piece, hvalue, hpieces⟩ := exists_piece_quotedCodePoint c
    rw [List.flatMap_cons, hpieces, values, hvalue, ih]
    rfl

/-! ## What is never written -/

/-- An escape with four hexadecimal digits is made of a backslash, the letter `u` and these digits. -/
private theorem mem_hex_escape {n : Nat} (h : n < 0x10000) {c : CodePoint}
    (hc : c ∈ ("\\u" : Text) ++ Text.ofChars (Value.hex 4 n)) :
    c = .ofChar '\\' ∨ c = .ofChar 'u' ∨ ∃ d, d < 16 ∧ c = .ofChar (Nat.digitChar d) := by
  rw [hex_four h] at hc
  rcases List.mem_append.mp hc with hc | hc
  · rcases List.mem_cons.mp hc with hc | hc
    · exact Or.inl hc
    · exact Or.inr (Or.inl (List.mem_singleton.mp hc))
  · simp only [Text.ofChars, List.map_map, List.mem_map] at hc
    obtain ⟨d, hd, rfl⟩ := hc
    refine Or.inr (Or.inr ⟨d, ?_, rfl⟩)
    simp only [List.mem_cons, List.not_mem_nil, or_false] at hd
    omega

/-- Escapes are printable ASCII. -/
private theorem val_of_mem_hex_escape {n : Nat} (h : n < 0x10000) {c : CodePoint}
    (hc : c ∈ ("\\u" : Text) ++ Text.ofChars (Value.hex 4 n)) : 0x20 ≤ c.val ∧ c.val < 0x80 := by
  have hdigit : ∀ d, d < 16 →
      0x20 ≤ (CodePoint.ofChar (Nat.digitChar d)).val ∧
        (CodePoint.ofChar (Nat.digitChar d)).val < 0x80 := by
    decide
  rcases mem_hex_escape h hc with rfl | rfl | ⟨d, hd, rfl⟩
  · decide
  · decide
  · exact hdigit d hd

theorem not_isSurrogate_of_lt {c : CodePoint} (h : c.val < 0xD800) : c.isSurrogate = false := by
  rw [CodePoint.isSurrogate, decide_eq_false (by omega), Bool.false_and]

/-- What a code point becomes in a comment: itself, or printable ASCII in place of a surrogate. -/
theorem mem_writable {c d : CodePoint} (hd : d ∈ writable c) :
    (d = c ∧ c.isSurrogate = false) ∨ (0x20 ≤ d.val ∧ d.val < 0x80) := by
  rw [writable] at hd
  split at hd
  · next hsurrogate =>
    have hlt : c.val < 0x10000 := by
      simp only [CodePoint.isSurrogate, Bool.and_eq_true, decide_eq_true_eq] at hsurrogate
      omega
    exact Or.inr (val_of_mem_hex_escape hlt hd)
  · next hsurrogate =>
    exact Or.inl ⟨List.mem_singleton.mp hd, Bool.eq_false_iff.mpr hsurrogate⟩

/-- What a code point becomes in a quoted string is no control character and no surrogate. -/
theorem mem_quotedCodePoint {c d : CodePoint} (hd : d ∈ quotedCodePoint c) :
    0x20 ≤ d.val ∧ d.isSurrogate = false := by
  have hletters : ∀ p ∈ letters, 0x20 ≤ (CodePoint.ofChar p.1).val := by decide
  rcases quotedCodePoint_cases c with ⟨letter, hletter, hform⟩ | ⟨hlow, hform⟩ | ⟨hge, -, hform⟩
  · rw [hform] at hd
    rcases List.mem_cons.mp hd with rfl | hd
    · decide
    · rw [List.mem_singleton.mp hd]
      exact ⟨hletters (letter, c) hletter, CodePoint.isSurrogate_ofChar letter⟩
  · rw [hform] at hd
    have hval := val_of_mem_hex_escape (by omega) hd
    exact ⟨hval.1, not_isSurrogate_of_lt (by omega)⟩
  · rw [hform] at hd
    rcases mem_writable hd with ⟨rfl, hsurrogate⟩ | hval
    · exact ⟨hge, hsurrogate⟩
    · exact ⟨hval.1, not_isSurrogate_of_lt (by omega)⟩

theorem mem_quote {t : Text} {c : CodePoint} (hc : c ∈ quote t) :
    0x20 ≤ c.val ∧ c.isSurrogate = false := by
  simp only [quote, List.mem_append, List.mem_singleton, List.mem_flatMap] at hc
  rcases hc with (rfl | ⟨d, -, hd⟩) | rfl
  · decide
  · exact mem_quotedCodePoint hd
  · decide

theorem mem_escapeSurrogates {t : Text} {c : CodePoint} (hc : c ∈ escapeSurrogates t) :
    (c ∈ t ∧ c.isSurrogate = false) ∨ (0x20 ≤ c.val ∧ c.val < 0x80) := by
  obtain ⟨d, hd, hc⟩ := List.mem_flatMap.mp hc
  rcases mem_writable hc with ⟨rfl, hsurrogate⟩ | hval
  · exact Or.inl ⟨hd, hsurrogate⟩
  · exact Or.inr hval

end Template

end Phrasebook
