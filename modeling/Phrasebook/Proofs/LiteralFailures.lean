import Mathlib.Data.Nat.Find
import Phrasebook.Proofs.LiteralValues

/-!
# Phrasebook — string literals without a value

A body is scanned from left to right. A backslash takes the code points behind it that are an *escape
form*, as many as there are: so a backslash that an earlier one has taken starts nothing, and a form that is
cut short gives way to a shorter one, in the end to the single code point behind the backslash. This scan is
described here on its own, without the pieces into which `Escape.pieces` cuts a body.

Every form but one has a value whatever its digits are, and the surrogates that come to stand side by side are
joined without a failure. Only a number in braces can be too large. So a body has no value exactly if the scan
meets such a number, and the first of them decides the failure.

Main results:

* `Escape.escape?_of_takes` — the longest form is the one that is read, and has a value unless it is in braces;
* `Escape.scan_induction` — every body can be scanned to its end;
* `Escape.unescape_eq_error_iff` — when a body has no value, and why.
-/

namespace Phrasebook.Escape

/-! ## Forms -/

/-- A number in braces, as it stands behind the backslash. -/
def bracedForm (digits : List HexDigit) : Text :=
  [.ofChar 'u', .ofChar '{'] ++ digits.map HexDigit.codePoint ++ [.ofChar '}']

/-- What can stand behind the backslash of an escape. -/
inductive IsForm : Text → Prop
  | braced (digits : List HexDigit) (hne : digits ≠ []) : IsForm (bracedForm digits)
  | hexFour (d₃ d₂ d₁ d₀ : HexDigit) :
    IsForm [.ofChar 'u', d₃.codePoint, d₂.codePoint, d₁.codePoint, d₀.codePoint]
  | hexTwo (d₁ d₀ : HexDigit) : IsForm [.ofChar 'x', d₁.codePoint, d₀.codePoint]
  | octal (o : Octal) : IsForm (o.digits.map octalDigit)
  | lineEnd : IsForm [.ofChar '\r', .ofChar '\n']
  | single (c : CodePoint) : IsForm [c]

/-- An escape takes the longest form that stands behind its backslash. -/
structure Takes (taken rest : Text) : Prop where
  isForm  : IsForm taken
  longest : ∀ form, IsForm form → form <+: taken ++ rest → form.length ≤ taken.length

/-- Behind a backslash, an escape takes some start of whatever follows. -/
theorem exists_takes {t : Text} (h : t ≠ []) : ∃ taken rest, t = taken ++ rest ∧ Takes taken rest := by
  classical
  obtain ⟨c, more, rfl⟩ := List.exists_cons_of_ne_nil h
  -- the single code point is a form, and no form is longer than the text
  let length := Nat.findGreatest (fun n => IsForm ((c :: more).take n)) (c :: more).length
  have hform : IsForm ((c :: more).take length) :=
    Nat.findGreatest_spec (P := fun n => IsForm ((c :: more).take n)) (m := 1) (by simp) (.single c)
  refine ⟨(c :: more).take length, (c :: more).drop length, (List.take_append_drop ..).symm, hform, ?_⟩
  intro form hform' hprefix
  rw [List.take_append_drop] at hprefix
  have hle : form.length ≤ length := by
    apply Nat.le_findGreatest hprefix.length_le
    rw [← List.prefix_iff_eq_take.mp hprefix]
    exact hform'
  rw [List.length_take]
  exact Nat.le_min.mpr ⟨hle, hprefix.length_le⟩

/-- Where an escape ends is determined by the text behind its backslash. -/
theorem Takes.unique {taken rest taken' rest' : Text} (h : Takes taken rest) (h' : Takes taken' rest')
    (hsame : taken ++ rest = taken' ++ rest') : taken = taken' ∧ rest = rest' := by
  apply List.append_inj hsame
  apply Nat.le_antisymm
  · apply h'.longest taken h.isForm
    rw [← hsame]
    exact List.prefix_append _ _
  · apply h.longest taken' h'.isForm
    rw [hsame]
    exact List.prefix_append _ _

/-! ## Digits -/

/-- A code point with a value in base sixteen is a hexadecimal digit. -/
theorem exists_hexDigit {c : CodePoint} (h : (c.digit? 16).isSome = true) : ∃ d : HexDigit, d.codePoint = c := by
  have hdigits : ∀ n (hn : n < 0x67), (CodePoint.digit? 16 ⟨n, by omega⟩).isSome = true →
      ∃ value isCapital, HexDigit.codePoint ⟨value, isCapital⟩ = ⟨n, by omega⟩ := by
    decide +kernel
  have hsmall : c.val < 0x67 := by
    by_contra hlarge
    simp only [CodePoint.digit?, CodePoint.within, Char.reduceToNat] at h
    have h9 : ¬ c.val ≤ 57 := by omega
    have hf : ¬ c.val ≤ 102 := by omega
    have hF : ¬ c.val ≤ 70 := by omega
    simp [h9, hf, hF] at h
  obtain ⟨value, isCapital, hd⟩ := hdigits c.val hsmall h
  exact ⟨⟨value, isCapital⟩, hd⟩

theorem exists_hexDigits {t : Text} (h : ∀ c ∈ t, (c.digit? 16).isSome = true) :
    ∃ digits : List HexDigit, digits.map HexDigit.codePoint = t := by
  induction t with
  | nil => exact ⟨[], rfl⟩
  | cons c t ih =>
    obtain ⟨hc, ht⟩ := List.forall_mem_cons.mp h
    obtain ⟨d, hd⟩ := exists_hexDigit hc
    obtain ⟨digits, hdigits⟩ := ih ht
    exact ⟨d :: digits, by rw [List.map_cons, hd, hdigits]⟩

theorem exists_octalDigit {c : CodePoint} (h : c.within '0' '7' = true) : ∃ d : Fin 8, octalDigit d = c := by
  simp only [CodePoint.within, Char.reduceToNat, Bool.and_eq_true, decide_eq_true_eq] at h
  have hdigits : ∀ d : Fin 8, (octalDigit d).val = d.val + 0x30 := by decide
  refine ⟨⟨c.val - 0x30, by omega⟩, CodePoint.ext_val ?_⟩
  rw [hdigits]
  show c.val - 0x30 + 0x30 = c.val
  omega

/-- Digits that are read as a number are digits. -/
theorem isSome_digit?_of_readDigits? {base : Nat} {t : Text} {n : Nat} (h : readDigits? base t = some n) :
    ∀ c ∈ t, (c.digit? base).isSome = true := by
  unfold readDigits? at h
  generalize 0 = start at h
  induction t generalizing start with
  | nil => exact List.forall_mem_nil _
  | cons c t ih =>
    rw [List.foldlM_cons] at h
    cases hc : c.digit? base with
    | none =>
      rw [hc] at h
      cases h
    | some value =>
      rw [hc] at h
      refine List.forall_mem_cons.mpr ⟨by rw [hc]; rfl, ih _ h⟩

/-- Digits that are read in braces are hexadecimal digits, and at least one. -/
theorem exists_of_bracedDigits? {t : Text} {n length : Nat} (h : bracedDigits? t = some (n, length)) :
    ∃ digits : List HexDigit, digits ≠ [] ∧ bracedForm digits <+: .ofChar 'u' :: t := by
  unfold bracedDigits? at h
  split at h
  · next c rest =>
    dsimp only at h
    split at h
    · next hbraces =>
      simp only [Bool.and_eq_true, Bool.not_eq_true', List.isEmpty_eq_false_iff] at hbraces
      obtain ⟨⟨hopening, hne⟩, hclosing⟩ := hbraces
      have htaken : rest.takeWhile (fun d => (d.digit? 16).isSome) <+: rest := List.takeWhile_prefix _
      obtain ⟨digits, hdigits⟩ := exists_hexDigits (List.all_eq_true.mp (List.all_takeWhile (l := rest)))
      rw [← hdigits] at hne hclosing htaken
      -- the closing brace stands behind the digits
      obtain ⟨behind, rfl⟩ := htaken
      rw [List.drop_left' rfl, Option.any_eq_true] at hclosing
      obtain ⟨d, hd, hbrace⟩ := hclosing
      obtain ⟨after, rfl⟩ := List.head?_eq_some_iff.mp hd
      refine ⟨digits, by simpa using hne, after, ?_⟩
      rw [CodePoint.is_iff.mp hopening, CodePoint.is_iff.mp hbrace, bracedForm]
      simp
    · cases h
  · cases h

/-- Digits of a fixed number that could be read stand at the start of the text. -/
theorem exists_of_fixedDigits? {count : Nat} {t : Text} {n : Nat} (h : fixedDigits? 16 count t = some n) :
    ∃ digits : List HexDigit, digits.length = count ∧ digits.map HexDigit.codePoint <+: t := by
  unfold fixedDigits? at h
  split at h
  · next hlength =>
    obtain ⟨digits, hdigits⟩ := exists_hexDigits (isSome_digit?_of_readDigits? h)
    refine ⟨digits, ?_, ?_⟩
    · rw [← List.length_map (f := HexDigit.codePoint), hdigits]
      exact beq_iff_eq.mp hlength
    · rw [hdigits]
      exact List.take_prefix _ _
  · cases h

/-! ## Values of forms -/

/-- The number of a control character is one of a code point. -/
theorem lt_of_control? {c : CodePoint} {n : Nat} (h : control? c = some n) : n < 0x110000 := by
  unfold control? at h
  split_ifs at h <;> cases h <;> decide

/-- An octal escape that is taken cannot be made longer. -/
theorem Takes.endsBefore_octal {o : Octal} {rest : Text} (h : Takes (o.digits.map octalDigit) rest) :
    (Token.octal o).EndsBefore rest := by
  intro hroom c hc
  by_contra hdigit
  rw [Bool.not_eq_false] at hdigit
  obtain ⟨d, rfl⟩ := exists_octalDigit hdigit
  obtain ⟨behind, rfl⟩ := List.head?_eq_some_iff.mp hc
  -- there is room for one more digit, and one stands there
  have hfits : (o.more ++ [d]).length ≤ room o.first := by
    have hle := o.fits
    have hne : o.more.length ≠ room o.first := by
      simpa [Octal.isFull] using hroom
    rw [List.length_append, List.length_singleton]
    omega
  have hlonger := h.longest _ (.octal ⟨o.first, o.more ++ [d], hfits⟩) ⟨behind, by simp [Octal.digits]⟩
  simp [Octal.digits] at hlonger

/-- The first letter of a form with hexadecimal digits is taken alone only where no such form fits. -/
theorem Takes.digits?_eq_none {c : CodePoint} {rest : Text} (h : Takes [c] rest) :
    (c.is 'u' = true → bracedDigits? rest = none ∧ fixedDigits? 16 4 rest = none) ∧
    (c.is 'x' = true → fixedDigits? 16 2 rest = none) := by
  -- no form that is longer than one letter fits here
  have hshort : ∀ form, IsForm form → form <+: c :: rest → form.length ≤ 1 :=
    fun form hform hprefix => h.longest form hform hprefix
  refine ⟨fun hletter => ⟨?_, ?_⟩, fun hletter => ?_⟩
  -- in each of the three cases a number that is read would be such a form
  all_goals
    rw [CodePoint.is_iff] at hletter
    subst hletter
    rw [Option.eq_none_iff_forall_ne_some]
  · rintro ⟨n, length⟩ hread
    obtain ⟨digits, hne, hprefix⟩ := exists_of_bracedDigits? hread
    have hle := hshort _ (.braced digits hne) hprefix
    simp [bracedForm] at hle
  · intro n hread
    obtain ⟨digits, hlength, hprefix⟩ := exists_of_fixedDigits? hread
    obtain ⟨d₃, d₂, d₁, d₀, rfl⟩ := List.length_eq_four.mp hlength
    have hle := hshort _ (.hexFour d₃ d₂ d₁ d₀) (List.cons_prefix_cons.mpr ⟨rfl, hprefix⟩)
    simp at hle
  · intro n hread
    obtain ⟨digits, hlength, hprefix⟩ := exists_of_fixedDigits? hread
    obtain ⟨d₁, d₀, rfl⟩ := List.length_eq_two.mp hlength
    have hle := hshort _ (.hexTwo d₁ d₀) (List.cons_prefix_cons.mpr ⟨rfl, hprefix⟩)
    simp at hle

/-- A code point that is taken alone is read alone, and has a value. -/
theorem Takes.escape?_single {c : CodePoint} {rest : Text} (h : Takes [c] rest) :
    ∃ piece value, escape? ([c] ++ rest) = some (piece, 1) ∧ Piece.value piece = .ok value := by
  by_cases hoctal : c.within '0' '7' = true
  · -- a digit is an octal escape of one digit
    obtain ⟨d, rfl⟩ := exists_octalDigit hoctal
    let o : Octal := { first := d, more := [], fits := Nat.zero_le _ }
    have hends : (Token.octal o).EndsBefore rest := Takes.endsBefore_octal h
    have hlt := o.number_lt
    exact ⟨.number o.number, _, escape?_octal o hends, value_number (by omega)⟩
  · have hlow : c.within '0' '3' = false := by
      simp only [CodePoint.within, Char.reduceToNat, Bool.and_eq_true, decide_eq_true_eq, Bool.and_eq_false_iff,
        decide_eq_false_iff_not] at hoctal ⊢
      omega
    have hhigh : c.within '4' '7' = false := by
      simp only [CodePoint.within, Char.reduceToNat, Bool.and_eq_true, decide_eq_true_eq, Bool.and_eq_false_iff,
        decide_eq_false_iff_not] at hoctal ⊢
      omega
    have hpair : (c.is '\r' && rest.head?.any (·.is '\n')) = false := by
      rw [← Bool.not_eq_true, Bool.and_eq_true, Option.any_eq_true]
      rintro ⟨hreturn, d, hd, hfeed⟩
      rw [CodePoint.is_iff] at hreturn hfeed
      subst hreturn hfeed
      obtain ⟨behind, rfl⟩ := List.head?_eq_some_iff.mp hd
      have hlonger := h.longest _ .lineEnd ⟨behind, rfl⟩
      simp at hlonger
    rw [List.singleton_append]
    by_cases hu : c.is 'u' = true
    · obtain ⟨hbraced, hfixed⟩ := h.digits?_eq_none.1 hu
      exact ⟨.plain c, [c], by simp [escape?, hu, hbraced, hfixed], rfl⟩
    · by_cases hx : c.is 'x' = true
      · have hfixed := h.digits?_eq_none.2 hx
        exact ⟨.plain c, [c], by simp [escape?, hu, hx, hfixed], rfl⟩
      · -- no digit and no letter before digits: a line break, or a code point by itself
        have hread : escape? (c :: rest) = some
            (if (c.is '\n' || c.is '\r' || c.val == 0x2028 || c.val == 0x2029) = true then (.nothing, 1)
            else (control? c).elim (.plain c, 1) fun n => (.number n, 1)) := by
          simp only [escape?, hu, hx, hlow, hhigh, hpair]
          cases control? c <;> rfl
        rw [hread]
        split
        · exact ⟨.nothing, [], rfl, rfl⟩
        · cases hcontrol : control? c with
          | none => exact ⟨.plain c, [c], rfl, rfl⟩
          | some n => exact ⟨.number n, _, rfl, value_number (lt_of_control? hcontrol)⟩

theorem escape?_bracedForm {digits : List HexDigit} (hne : digits ≠ []) (rest : Text) :
    escape? (bracedForm digits ++ rest) = some (.number (hexNumber digits), (bracedForm digits).length) := by
  obtain ⟨first, more, rfl⟩ := List.exists_cons_of_ne_nil hne
  rw [bracedForm, escape?_braced]
  simp

/-- **The longest form is read**, as a piece of its length. Only a number in braces can have no value. -/
theorem escape?_of_takes {taken rest : Text} (h : Takes taken rest) :
    ∃ piece, escape? (taken ++ rest) = some (piece, taken.length) ∧
      ((∃ digits, digits ≠ [] ∧ taken = bracedForm digits ∧ piece = .number (hexNumber digits)) ∨
        ∃ value, Piece.value piece = .ok value) := by
  obtain ⟨hform, -⟩ := id h
  -- one reading for each form, and a bound that makes its number a code point
  cases hform with
  | braced digits hne => exact ⟨_, escape?_bracedForm hne rest, .inl ⟨digits, hne, rfl, rfl⟩⟩
  | hexFour d₃ d₂ d₁ d₀ =>
    have hlt : hexNumber [d₃, d₂, d₁, d₀] < 16 ^ 4 := hexNumber_lt _
    exact ⟨_, escape?_hexFour d₃ d₂ d₁ d₀ rest, .inr ⟨_, value_number (by omega)⟩⟩
  | hexTwo d₁ d₀ =>
    have hlt : hexNumber [d₁, d₀] < 16 ^ 2 := hexNumber_lt _
    exact ⟨_, escape?_hexTwo d₁ d₀ rest, .inr ⟨_, value_number (by omega)⟩⟩
  | octal o =>
    have hlt := o.number_lt
    have hread := escape?_octal o h.endsBefore_octal
    rw [← List.length_map (f := octalDigit)] at hread
    exact ⟨_, hread, .inr ⟨_, value_number (by omega)⟩⟩
  | lineEnd => exact ⟨.nothing, rfl, .inr ⟨[], rfl⟩⟩
  | single c =>
    obtain ⟨piece, value, hread, hvalue⟩ := h.escape?_single
    exact ⟨piece, hread, .inr ⟨value, hvalue⟩⟩

/-- A number in braces is taken wherever it stands behind a backslash. -/
theorem Takes.eq_bracedForm {taken rest behind : Text} (h : Takes taken rest) {digits : List HexDigit}
    (hne : digits ≠ []) (hsame : taken ++ rest = bracedForm digits ++ behind) :
    taken = bracedForm digits ∧ rest = behind := by
  obtain ⟨piece, hread, -⟩ := escape?_of_takes h
  -- both are read at the same place, hence have the same length
  rw [hsame, escape?_bracedForm hne, Option.some.injEq, Prod.mk.injEq] at hread
  exact List.append_inj hsame hread.2.symm

/-! ## Scans -/

/-- A scan of a body has met some escapes, and has something left. -/
inductive Scan : Text → List Text → Text → Prop
  | here (body : Text) : Scan body [] body
  /-- Any code point but a backslash stands for itself. -/
  | raw {c : CodePoint} {rest left : Text} {met : List Text} (hc : c.is '\\' = false) (h : Scan rest met left) :
    Scan (c :: rest) met left
  /-- A backslash takes the longest form behind it. -/
  | escape {taken rest left : Text} {met : List Text} (htaken : Takes taken rest) (h : Scan rest met left) :
    Scan (.ofChar '\\' :: (taken ++ rest)) (taken :: met) left

/-- **Every body can be scanned**: what holds of a body without anything or with only a backslash left, and is
kept by a raw code point and by an escape before it, holds of all bodies. -/
theorem scan_induction {motive : Text → Prop} (nil : motive []) (lone : motive [.ofChar '\\'])
    (raw : ∀ c rest, c.is '\\' = false → motive rest → motive (c :: rest))
    (escape : ∀ taken rest, Takes taken rest → motive rest → motive (.ofChar '\\' :: (taken ++ rest)))
    (body : Text) : motive body := by
  -- an escape takes several code points at once, so the induction is on the length
  induction hlength : body.length using Nat.strongRecOn generalizing body with
  | ind n ih =>
    cases body with
    | nil => exact nil
    | cons c rest =>
      rw [List.length_cons] at hlength
      by_cases hc : c.is '\\' = true
      · rw [CodePoint.is_iff.mp hc]
        by_cases hrest : rest = []
        · rw [hrest]
          exact lone
        · obtain ⟨taken, behind, rfl, htaken⟩ := exists_takes hrest
          refine escape taken behind htaken (ih behind.length ?_ behind rfl)
          rw [List.length_append] at hlength
          omega
      · exact raw c rest (Bool.not_eq_true _ ▸ hc) (ih rest.length (by omega) rest rfl)

theorem Scan.isSuffix {body left : Text} {met : List Text} (h : Scan body met left) : left <:+ body := by
  induction h with
  | here body => exact List.suffix_refl body
  | raw hc _ ih => exact ih.trans (List.suffix_cons ..)
  | escape htaken _ ih => exact ih.trans ((List.suffix_append _ _).trans (List.suffix_cons ..))

/-- A scan of a body that starts with a raw code point has not started, or scans what follows it. -/
theorem scan_raw_iff {c : CodePoint} (hc : c.is '\\' = false) {rest left : Text} {met : List Text} :
    Scan (c :: rest) met left ↔ (met = [] ∧ left = c :: rest) ∨ Scan rest met left := by
  constructor
  · intro h
    cases h with
    | here => exact .inl ⟨rfl, rfl⟩
    | raw _ h => exact .inr h
    | escape => cases hc
  · rintro (⟨rfl, rfl⟩ | h)
    · exact .here _
    · exact .raw hc h

/-- A scan of a body that starts with an escape has not started, or meets the escape and scans what follows it. -/
theorem scan_escape_iff {taken rest left : Text} {met : List Text} (htaken : Takes taken rest) :
    Scan (.ofChar '\\' :: (taken ++ rest)) met left ↔
      (met = [] ∧ left = .ofChar '\\' :: (taken ++ rest)) ∨ ∃ more, met = taken :: more ∧ Scan rest more left := by
  constructor
  · intro h
    generalize hbody : CodePoint.ofChar '\\' :: (taken ++ rest) = body at h
    cases h with
    | here => exact .inl ⟨rfl, rfl⟩
    | raw hc _ =>
      rw [← (List.cons.inj hbody).1] at hc
      cases hc
    | escape htaken' h =>
      obtain ⟨rfl, rfl⟩ := htaken.unique htaken' (List.cons.inj hbody).2
      exact .inr ⟨_, rfl, h⟩
  · rintro (⟨rfl, rfl⟩ | ⟨more, rfl, h⟩)
    · exact .here _
    · exact .escape htaken h

/-! ## The first number that is too large -/

/-- The failure of a number that is too large. -/
def failureOf (n : Nat) : Failure := if n < 2 ^ 31 then .beyondLast else .overflow

/-- A scan of the body meets a number in braces that is too large, and none before it. -/
def FirstBeyond (body : Text) (n : Nat) : Prop :=
  0x110000 ≤ n ∧ ∃ met digits rest, Scan body met (.ofChar '\\' :: (bracedForm digits ++ rest)) ∧
    digits ≠ [] ∧ hexNumber digits = n ∧ ∀ ds, bracedForm ds ∈ met → hexNumber ds < 0x110000

theorem not_firstBeyond_nil {n : Nat} : ¬ FirstBeyond [] n := by
  rintro ⟨-, met, digits, rest, hscan, -⟩
  cases hscan

theorem not_firstBeyond_lone {n : Nat} : ¬ FirstBeyond [.ofChar '\\'] n := by
  rintro ⟨-, met, digits, rest, hscan, -⟩
  have hlength := hscan.isSuffix.length_le
  simp [bracedForm] at hlength

theorem firstBeyond_raw_iff {c : CodePoint} (hc : c.is '\\' = false) {rest : Text} {n : Nat} :
    FirstBeyond (c :: rest) n ↔ FirstBeyond rest n := by
  have hne : ∀ behind : Text, CodePoint.ofChar '\\' :: behind ≠ c :: rest := by
    intro behind hsame
    rw [← (List.cons.inj hsame).1] at hc
    cases hc
  simp only [FirstBeyond, scan_raw_iff hc, hne, and_false, false_or]

/-- A number that is too large is the first one if the body starts with it. -/
theorem firstBeyond_bracedForm_iff {digits : List HexDigit} {rest : Text} (hne : digits ≠ [])
    (htaken : Takes (bracedForm digits) rest) (hlarge : 0x110000 ≤ hexNumber digits) {n : Nat} :
    FirstBeyond (.ofChar '\\' :: (bracedForm digits ++ rest)) n ↔ n = hexNumber digits := by
  constructor
  · rintro ⟨-, met, digits', rest', hscan, hne', rfl, hmet⟩
    rcases (scan_escape_iff htaken).mp hscan with ⟨-, hleft⟩ | ⟨more, rfl, -⟩
    · -- both numbers stand at one place, and are read there
      have hsame := (htaken.eq_bracedForm hne' (List.cons.inj hleft).2.symm).1
      have hdigits : digits.map HexDigit.codePoint = digits'.map HexDigit.codePoint := by
        simpa [bracedForm] using hsame
      have hread := readDigits?_hex digits
      rw [hdigits, readDigits?_hex] at hread
      exact Option.some.inj hread
    · have hsmall := hmet digits List.mem_cons_self
      omega
  · rintro rfl
    exact ⟨hlarge, [], digits, rest, .here _, hne, rfl, by simp⟩

/-- An escape that has a value is passed over. -/
theorem firstBeyond_escape_iff {taken rest : Text} (htaken : Takes taken rest)
    (hsmall : ∀ ds, taken = bracedForm ds → hexNumber ds < 0x110000) {n : Nat} :
    FirstBeyond (.ofChar '\\' :: (taken ++ rest)) n ↔ FirstBeyond rest n := by
  constructor
  · rintro ⟨hlarge, met, digits, behind, hscan, hne, rfl, hmet⟩
    rcases (scan_escape_iff htaken).mp hscan with ⟨-, hleft⟩ | ⟨more, rfl, hmore⟩
    · have hsame := (htaken.eq_bracedForm hne (List.cons.inj hleft).2.symm).1
      have hlt := hsmall digits hsame
      omega
    · exact ⟨hlarge, more, digits, behind, hmore, hne, rfl, fun ds hds => hmet ds (List.mem_cons_of_mem _ hds)⟩
  · rintro ⟨hlarge, met, digits, behind, hscan, hne, rfl, hmet⟩
    refine ⟨hlarge, taken :: met, digits, behind, .escape htaken hscan, hne, rfl, ?_⟩
    intro ds hds
    rcases List.mem_cons.mp hds with hfirst | hlater
    · exact hsmall ds hfirst.symm
    · exact hmet ds hlater

/-- If a scan meets a number that is too large, it meets a first one. -/
theorem exists_firstBeyond {body rest : Text} {met : List Text} {digits : List HexDigit} (hne : digits ≠ [])
    (hlarge : 0x110000 ≤ hexNumber digits)
    (h : Scan body met (.ofChar '\\' :: (bracedForm digits ++ rest))) : ∃ n, FirstBeyond body n := by
  generalize hleft : CodePoint.ofChar '\\' :: (bracedForm digits ++ rest) = left at h
  induction h with
  | here body =>
    rw [← hleft]
    exact ⟨_, hlarge, [], digits, rest, .here _, hne, rfl, by simp⟩
  | raw hc _ ih =>
    obtain ⟨n, hn⟩ := ih hleft
    exact ⟨n, (firstBeyond_raw_iff hc).mpr hn⟩
  | @escape taken rest' left met htaken _ ih =>
    by_cases hsmall : ∀ ds, taken = bracedForm ds → hexNumber ds < 0x110000
    · obtain ⟨n, hn⟩ := ih hleft
      exact ⟨n, (firstBeyond_escape_iff htaken hsmall).mpr hn⟩
    · -- an earlier number is too large itself
      push Not at hsmall
      obtain ⟨ds, rfl, hds⟩ := hsmall
      have hne' : ds ≠ [] := by
        rintro rfl
        cases hds
      exact ⟨_, (firstBeyond_bracedForm_iff hne' htaken hds).mpr rfl⟩

/-! ## Bodies without a value -/

theorem value_number_eq_error_iff {n : Nat} {failure : Failure} :
    (Piece.number n).value = .error failure ↔ 0x110000 ≤ n ∧ failure = failureOf n := by
  by_cases h : n < 0x110000
  · simp [value_number h, h]
  · simp only [Piece.value, CodePoint.ofNat?, h, dif_neg, not_false_eq_true, Except.error.injEq, failureOf,
      Nat.not_lt.mp h, true_and]
    exact eq_comm

theorem values_cons_of_ok {piece : Piece} {value : Text} (h : piece.value = .ok value) {rest : List Piece}
    {failure : Failure} : values (piece :: rest) = .error failure ↔ values rest = .error failure := by
  rw [values, h]
  cases hrest : values rest with
  | error other => rfl
  | ok others => simp [bind, Except.bind, pure, Except.pure]

theorem values_cons_of_error {piece : Piece} {failure : Failure} (h : piece.value = .error failure)
    (rest : List Piece) : values (piece :: rest) = .error failure := by
  rw [values, h]
  rfl

/-- **Run.** The pieces of a body have no values exactly if the scan meets a number that is too large, and the
first one decides the failure. -/
theorem values_pieces_eq_error_iff (body : Text) (failure : Failure) :
    values (pieces body) = .error failure ↔ ∃ n, FirstBeyond body n ∧ failure = failureOf n := by
  -- every step either has a value, and both sides pass it over, or decides both
  induction body using scan_induction with
  | nil => simp [pieces, piecesFrom, values, not_firstBeyond_nil]
  | lone =>
    have hpieces : pieces [.ofChar '\\'] = [.plain (.ofChar '\\')] := rfl
    simp [hpieces, values, Piece.value, not_firstBeyond_lone, bind, Except.bind, pure, Except.pure]
  | raw c rest hc ih =>
    rw [pieces_cons_of_not_backslash hc, values_cons_of_ok rfl, ih]
    simp only [firstBeyond_raw_iff hc]
  | escape taken rest htaken ih =>
    obtain ⟨piece, hread, hpiece⟩ := escape?_of_takes htaken
    rw [pieces_escape hread]
    by_cases hsmall : ∀ ds, taken = bracedForm ds → hexNumber ds < 0x110000
    · obtain ⟨value, hvalue⟩ : ∃ value, piece.value = .ok value := by
        rcases hpiece with ⟨digits, -, hdigits, rfl⟩ | hvalue
        · exact ⟨_, value_number (hsmall digits hdigits)⟩
        · exact hvalue
      rw [values_cons_of_ok hvalue, ih]
      simp only [firstBeyond_escape_iff htaken hsmall]
    · push Not at hsmall
      obtain ⟨ds, rfl, hlarge⟩ := hsmall
      have hne : ds ≠ [] := by
        rintro rfl
        cases hlarge
      -- the failure is that of this number, whatever follows
      rw [escape?_bracedForm hne, Option.some.injEq, Prod.mk.injEq] at hread
      have hvalue : piece.value = .error (failureOf (hexNumber ds)) := by
        rw [← hread.1]
        exact value_number_eq_error_iff.mpr ⟨hlarge, rfl⟩
      rw [values_cons_of_error hvalue]
      simp only [firstBeyond_bracedForm_iff hne htaken hlarge, exists_eq_left, Except.error.injEq]
      exact eq_comm

/-- **Bodies without a value.** A body of a string literal has no value exactly if the scan from left to right
meets a number in braces that is too large for a code point; a backslash that belongs to an earlier escape
starts none. The first such number decides the failure: whether it still fits into 31 bits. In particular a
body has a value whatever its other escapes are, also where they are cut short, stand for surrogates, or where
it ends with a backslash. -/
theorem unescape_eq_error_iff (body : Text) :
    (∀ failure, unescape body = .error failure ↔ ∃ n, FirstBeyond body n ∧ failure = failureOf n) ∧
    ((∃ failure, unescape body = .error failure) ↔ ∃ met digits rest,
      Scan body met (.ofChar '\\' :: (bracedForm digits ++ rest)) ∧ digits ≠ [] ∧ 0x110000 ≤ hexNumber digits) ∧
    ((∀ before digits rest, body = before ++ .ofChar '\\' :: (bracedForm digits ++ rest) → digits ≠ [] →
      hexNumber digits < 0x110000) → ∃ value, unescape body = .ok value) := by
  have hfailure : ∀ failure, unescape body = .error failure ↔ ∃ n, FirstBeyond body n ∧ failure = failureOf n := by
    intro failure
    rw [← values_pieces_eq_error_iff, unescape]
    -- joining surrogates does not fail
    cases values (pieces body) <;> simp [Except.map]
  have hmeets : (∃ failure, unescape body = .error failure) ↔ ∃ met digits rest,
      Scan body met (.ofChar '\\' :: (bracedForm digits ++ rest)) ∧ digits ≠ [] ∧
        0x110000 ≤ hexNumber digits := by
    constructor
    · rintro ⟨failure, h⟩
      obtain ⟨n, ⟨hlarge, met, digits, rest, hscan, hne, rfl, -⟩, -⟩ := (hfailure failure).mp h
      exact ⟨met, digits, rest, hscan, hne, hlarge⟩
    · rintro ⟨met, digits, rest, hscan, hne, hlarge⟩
      obtain ⟨n, hn⟩ := exists_firstBeyond hne hlarge hscan
      exact ⟨failureOf n, (hfailure _).mpr ⟨n, hn, rfl⟩⟩
  refine ⟨hfailure, hmeets, ?_⟩
  intro hsmall
  cases hresult : unescape body with
  | ok value => exact ⟨value, rfl⟩
  | error failure =>
    obtain ⟨met, digits, rest, hscan, hne, hlarge⟩ := hmeets.mp ⟨failure, hresult⟩
    obtain ⟨before, hbefore⟩ := hscan.isSuffix
    have hlt := hsmall before digits rest hbefore.symm hne
    omega

/-- The backslash that is taken by another one starts nothing, and of two numbers the first one decides. -/
example :
    unescape "\\\\u{110000}" = .ok "\\u{110000}" ∧ unescape "\\u{80000000}\\u{110000}" = .error .overflow := by
  decide +kernel

end Phrasebook.Escape
