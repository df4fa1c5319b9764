import Mathlib.Data.List.Chain
import Phrasebook.Proofs.Quoting
import Phrasebook.Placeholder

/-!
# Phrasebook — texts without split pairs

A text may spell a code point beyond `0xFFFF` as itself or as its two surrogates; scripts see no
difference, because both have the same UTF-16 code units. `Text.PairFree` singles out the spelling
without split pairs: no high surrogate stands directly before a low one.

`Text.joinPairs` gives every text its spelling without split pairs, and there is only one:
on pair-free texts the code units determine the text. Decoding placeholders keeps texts pair-free, since
it only cuts code points out between a brace and a name, or between a name and a brace.

Main results:

* `Text.joinPairs_iff` — what `Text.joinPairs` computes, in terms of code units;
* `Text.eq_of_units_eq` — pair-free texts with the same code units are equal;
* `Escape.pairFree_of_unescape` — values of string literals are pair-free;
* `Placeholder.pairFree_decode` — and so are decoded texts.
-/

namespace Phrasebook

namespace CodePoint

@[simp] theorem isHigh_iff {c : CodePoint} : c.isHigh = true ↔ 0xD800 ≤ c.val ∧ c.val ≤ 0xDBFF := by
  rw [isHigh, Bool.and_eq_true, decide_eq_true_eq, decide_eq_true_eq]

@[simp] theorem isLow_iff {c : CodePoint} : c.isLow = true ↔ 0xDC00 ≤ c.val ∧ c.val ≤ 0xDFFF := by
  rw [isLow, Bool.and_eq_true, decide_eq_true_eq, decide_eq_true_eq]

theorem not_half_of_not_isSurrogate {c : CodePoint} (h : c.isSurrogate = false) :
    c.isHigh = false ∧ c.isLow = false := by
  rw [isSurrogate, Bool.and_eq_false_iff, decide_eq_false_iff_not, decide_eq_false_iff_not] at h
  rw [Bool.eq_false_iff, Bool.eq_false_iff, ne_eq, ne_eq, isHigh_iff, isLow_iff]
  omega

/-- The two halves of a split pair, and the code point that they spell. -/
theorem ofPair?_eq_some_iff {high low c : CodePoint} :
    ofPair? high low = some c ↔ high.isHigh = true ∧ low.isLow = true ∧
      c.val = 0x10000 + (high.val - 0xD800) * 0x400 + (low.val - 0xDC00) := by
  rw [ofPair?, isHigh_iff, isLow_iff]
  constructor
  · intro h
    split at h
    · next hpair =>
      rw [Bool.and_eq_true, isHigh_iff, isLow_iff] at hpair
      rw [ofNat?, Option.dite_none_right_eq_some] at h
      obtain ⟨_, hval⟩ := h
      rw [Option.some.injEq] at hval
      exact ⟨hpair.1, hpair.2, by rw [← hval]⟩
    · cases h
  · rintro ⟨hhigh, hlow, hval⟩
    -- no pair of halves spells a number beyond the last code point
    have hlt : 0x10000 + (high.val - 0xD800) * 0x400 + (low.val - 0xDC00) < 0x110000 := by omega
    rw [if_pos (by simp [hhigh, hlow]), ofNat?, dif_pos hlt, Option.some.injEq]
    exact ext_val hval.symm

/-- Surrogates spell a code point only as a pair of a high and a low one. -/
theorem ofPair?_eq_none_iff {high low : CodePoint} :
    ofPair? high low = none ↔ ¬ (high.isHigh = true ∧ low.isLow = true) := by
  constructor
  · rintro hnone ⟨hhigh, hlow⟩
    have hlt : 0x10000 + (high.val - 0xD800) * 0x400 + (low.val - 0xDC00) < 0x110000 := by
      simp only [isHigh_iff, isLow_iff] at hhigh hlow
      omega
    have hsome := ofPair?_eq_some_iff (c := ⟨_, hlt⟩).mpr ⟨hhigh, hlow, rfl⟩
    rw [hnone] at hsome
    cases hsome
  · intro hpair
    rw [ofPair?, if_neg (by rw [Bool.and_eq_true]; exact hpair)]

/-- A split pair has the code units of the code point that it spells. -/
theorem units_of_ofPair? {high low c : CodePoint} (h : ofPair? high low = some c) :
    c.units = high.units ++ low.units := by
  obtain ⟨hhigh, hlow, hval⟩ := ofPair?_eq_some_iff.mp h
  simp only [isHigh_iff, isLow_iff] at hhigh hlow
  rw [units, units, units, if_neg (by omega), if_pos (by omega), if_pos (by omega), hval]
  have hfirst : 0xD800 + (0x10000 + (high.val - 0xD800) * 0x400 + (low.val - 0xDC00) - 0x10000) / 0x400 =
      high.val := by omega
  have hsecond : 0xDC00 + (0x10000 + (high.val - 0xD800) * 0x400 + (low.val - 0xDC00) - 0x10000) % 0x400 =
      low.val := by omega
  rw [hfirst, hsecond]
  rfl

/-- A code point with two code units is no surrogate. -/
theorem not_surrogate_of_ofPair? {high low c : CodePoint} (h : ofPair? high low = some c) :
    c.isHigh = false ∧ c.isLow = false := by
  obtain ⟨-, -, hval⟩ := ofPair?_eq_some_iff.mp h
  rw [Bool.eq_false_iff, Bool.eq_false_iff, ne_eq, ne_eq, isHigh_iff, isLow_iff]
  omega

end CodePoint

namespace Text

/-! ## Split pairs -/

/-- No high surrogate stands directly before a low one. -/
def PairFree (t : Text) : Prop := t.IsChain fun a b => ¬ (a.isHigh = true ∧ b.isLow = true)

instance (t : Text) : Decidable t.PairFree :=
  inferInstanceAs (Decidable (t.IsChain fun a b => ¬ (a.isHigh = true ∧ b.isLow = true)))

theorem PairFree.of_isInfix {a b : Text} (h : b.PairFree) (hab : a <:+: b) : a.PairFree :=
  List.IsChain.infix h hab

/-- What comes first in a text comes first in it without split pairs, unless it is half of one. -/
theorem head?_joinPairs {c d : CodePoint} {rest : Text} (h : d ∈ (joinPairs (c :: rest)).head?) :
    d = c ∨ d.isLow = false := by
  cases rest with
  | nil =>
    rw [joinPairs, List.head?_cons, Option.mem_some_iff] at h
    exact .inl h.symm
  | cons low rest =>
    rw [joinPairs] at h
    split at h
    · next joined hpair =>
      rw [List.head?_cons, Option.mem_some_iff] at h
      rw [← h]
      exact .inr (CodePoint.not_surrogate_of_ofPair? hpair).2
    · rw [List.head?_cons, Option.mem_some_iff] at h
      exact .inl h.symm

/-- Joining leaves no split pair, as what it makes is no half of another. -/
@[simp] theorem pairFree_joinPairs (t : Text) : t.joinPairs.PairFree := by
  fun_induction joinPairs t with
  | case1 => exact .nil
  | case2 c => exact .singleton c
  | case3 high low rest c hpair ih =>
    -- what was joined is no half of a pair
    refine List.isChain_cons.mpr ⟨?_, ih⟩
    rintro d - ⟨hhigh, -⟩
    rw [(CodePoint.not_surrogate_of_ofPair? hpair).1] at hhigh
    cases hhigh
  | case4 high low rest hpair ih =>
    refine List.isChain_cons.mpr ⟨?_, ih⟩
    rintro d hd ⟨hhigh, hlow⟩
    -- the next code point is the one that could not be joined, or is itself a joined pair
    rcases head?_joinPairs hd with rfl | hnot
    · exact CodePoint.ofPair?_eq_none_iff.mp hpair ⟨hhigh, hlow⟩
    · rw [hnot] at hlow
      cases hlow

theorem joinPairs_of_pairFree {t : Text} (h : t.PairFree) : t.joinPairs = t := by
  fun_induction joinPairs t with
  | case1 => rfl
  | case2 c => rfl
  | case3 high low rest c hpair ih =>
    obtain ⟨hhigh, hlow, -⟩ := CodePoint.ofPair?_eq_some_iff.mp hpair
    exact absurd ⟨hhigh, hlow⟩ (List.isChain_cons_cons.mp h).1
  | case4 high low rest hpair ih => rw [ih (List.isChain_cons_cons.mp h).2]

/-! ## Code units -/

@[simp] theorem units_cons (c : CodePoint) (t : Text) : units (c :: t) = c.units ++ units t :=
  List.flatMap_cons ..

@[simp] theorem units_joinPairs (t : Text) : t.joinPairs.units = t.units := by
  fun_induction joinPairs t with
  | case1 => rfl
  | case2 c => rfl
  | case3 high low rest c hpair ih =>
    rw [units_cons, units_cons, units_cons, ih, CodePoint.units_of_ofPair? hpair, List.append_assoc]
  | case4 high low rest hpair ih => rw [units_cons, units_cons, ih]

/-- The first code unit of a text belongs to its first code point. -/
theorem exists_of_units_eq_cons {t : Text} {unit : Nat} {more : List Nat} (h : t.units = unit :: more) :
    ∃ c rest, t = c :: rest ∧
      ((c.val < 0x10000 ∧ c.val = unit ∧ units rest = more) ∨
        (0x10000 ≤ c.val ∧ unit = 0xD800 + (c.val - 0x10000) / 0x400 ∧
          more = (0xDC00 + (c.val - 0x10000) % 0x400) :: units rest)) := by
  cases t with
  | nil => cases h
  | cons c rest =>
    refine ⟨c, rest, rfl, ?_⟩
    rw [units_cons, CodePoint.units] at h
    split at h
    · next hsmall =>
      cases h
      exact .inl ⟨hsmall, rfl, rfl⟩
    · next hlarge =>
      cases h
      exact .inr ⟨by omega, rfl, rfl⟩

/-- **One spelling.** Pair-free texts with the same code units are equal. -/
theorem eq_of_units_eq {a b : Text} (ha : a.PairFree) (hb : b.PairFree) (h : a.units = b.units) :
    a = b := by
  -- a code point of one unit and one of two can only agree where the former is half of a split pair
  have hmixed : ∀ {c d : CodePoint} {a b : Text}, PairFree (c :: a) → c.val < 0x10000 →
      0x10000 ≤ d.val → c.val = 0xD800 + (d.val - 0x10000) / 0x400 →
      a.units = (0xDC00 + (d.val - 0x10000) % 0x400) :: b.units → False := by
    intro c d a b hfree hsmall hlarge hunit hmore
    have hd := d.isLt
    obtain ⟨low, rest, rfl, ⟨hlow, hval, -⟩ | ⟨hlow, hval, -⟩⟩ := exists_of_units_eq_cons hmore
    · refine (List.isChain_cons_cons.mp hfree).1 ?_
      rw [CodePoint.isHigh_iff, CodePoint.isLow_iff]
      omega
    · have := low.isLt
      omega
  induction a generalizing b with
  | nil =>
    cases b with
    | nil => rfl
    | cons d b =>
      rw [units_cons, CodePoint.units] at h
      split at h <;> cases h
  | cons c a ih =>
    have ha' : PairFree a := (List.isChain_cons.mp ha).2
    rw [units_cons, CodePoint.units] at h
    split at h
    · next hsmall =>
      obtain ⟨d, b, rfl, ⟨hd, hval, hrest⟩ | ⟨hd, hval, hmore⟩⟩ := exists_of_units_eq_cons h.symm
      · rw [CodePoint.ext_val hval, ih ha' (List.isChain_cons.mp hb).2 hrest.symm]
      · exact (hmixed ha hsmall hd hval hmore).elim
    · next hlarge =>
      obtain ⟨d, b, rfl, ⟨hd, hval, hrest⟩ | ⟨hd, hval, hmore⟩⟩ := exists_of_units_eq_cons h.symm
      · exact (hmixed hb hd (by omega) hval hrest).elim
      · change (_ :: units a) = _ at hmore
        rw [List.cons.injEq] at hmore
        have hsame : c = d := CodePoint.ext_val (by omega)
        rw [hsame, ih ha' (List.isChain_cons.mp hb).2 hmore.2]

/-- **Joined pairs.** A text with its pairs joined is the one pair-free text with the same code units. -/
theorem joinPairs_iff {t joined : Text} :
    joined = t.joinPairs ↔ joined.units = t.units ∧ joined.PairFree := by
  constructor
  · rintro rfl
    exact ⟨units_joinPairs t, pairFree_joinPairs t⟩
  · rintro ⟨hunits, hfree⟩
    exact eq_of_units_eq hfree (pairFree_joinPairs t) (hunits.trans (units_joinPairs t).symm)

end Text

/-- The value of a string literal is pair-free. -/
theorem Escape.pairFree_of_unescape {body value : Text} (h : unescape body = .ok value) :
    value.PairFree := by
  rw [unescape] at h
  cases hvalues : values (pieces body) with
  | error failure =>
    rw [hvalues] at h
    cases h
  | ok joined =>
    rw [hvalues] at h
    cases h
    exact Text.pairFree_joinPairs joined

namespace Placeholder

/-! ## Placeholders -/

/-- What a part is cut from. -/
def Part.source : Part → Text
  | .plain c => [c]
  | .placeholder inside => [CodePoint.ofChar '{'] ++ inside ++ [CodePoint.ofChar '}']

/-- What stands inside braces is followed by the closing one. -/
theorem inside?_eq_some {t inside : Text} (h : inside? t = some inside) :
    ∃ rest, t = inside ++ .ofChar '}' :: rest := by
  rw [inside?] at h
  split at h
  · cases h
  · next hbrace =>
    rw [Option.some.injEq] at h
    rw [Bool.or_eq_true, not_or, beq_iff_eq] at hbrace
    -- behind what was taken comes the first closing brace
    cases hdrop : t.dropWhile (!·.is '}') with
    | nil =>
      have hall := List.takeWhile_append_dropWhile (p := fun c : CodePoint => !c.is '}') (l := t)
      rw [hdrop, List.append_nil] at hall
      exact absurd (congrArg List.length hall) hbrace.2
    | cons c rest =>
      have hc : (!c.is '}') = false := by
        have := List.head?_dropWhile_not (fun c : CodePoint => !c.is '}') t
        rw [hdrop] at this
        simpa using this
      rw [Bool.not_eq_false', CodePoint.is_iff] at hc
      refine ⟨rest, ?_⟩
      rw [← h, ← hc, ← hdrop, List.takeWhile_append_dropWhile]

theorem partsFrom_append (taken t : Text) : partsFrom taken.length (taken ++ t) = parts t := by
  induction taken with
  | nil => rfl
  | cons c taken ih => exact ih

/-- The parts of a text make up the text. -/
theorem flatMap_source_parts (t : Text) : (parts t).flatMap Part.source = t := by
  -- a placeholder takes several code points at once, so the induction is on the length
  induction hlength : t.length using Nat.strongRecOn generalizing t with
  | ind n ih =>
    cases t with
    | nil => rfl
    | cons c rest =>
      have hrest : (parts rest).flatMap Part.source = rest :=
        ih rest.length (by rw [← hlength, List.length_cons]; omega) rest rfl
      have hplain : (Part.plain c :: parts rest).flatMap Part.source = c :: rest := by
        rw [List.flatMap_cons, hrest]
        rfl
      rw [parts, partsFrom]
      split
      · next hopen =>
        split
        · next inside hinside =>
          obtain ⟨behind, rfl⟩ := inside?_eq_some hinside
          have hskip : partsFrom (inside.length + 1) (inside ++ .ofChar '}' :: behind) = parts behind := by
            have := partsFrom_append (inside ++ [.ofChar '}']) behind
            rw [List.length_append, List.append_assoc] at this
            exact this
          have hbehind : (parts behind).flatMap Part.source = behind := by
            refine ih behind.length ?_ behind rfl
            rw [← hlength, List.length_cons, List.length_append, List.length_cons]
            omega
          rw [hskip, List.flatMap_cons, hbehind, CodePoint.is_iff.mp hopen, Part.source]
          simp
        · exact hplain
      · exact hplain

theorem isInfix_strip (t : Text) : t.strip <:+: t := by
  have hfront : t.dropWhile CodePoint.isBlank <:+ t := List.dropWhile_suffix _
  have hback : t.strip <+: t.dropWhile CodePoint.isBlank := by
    rw [Text.strip, Text.dropEndWhile, ← List.reverse_suffix, List.reverse_reverse]
    exact List.dropWhile_suffix _
  exact hback.isInfix.trans hfront.isInfix

theorem isInfix_name (inside : Text) : name inside <:+: inside :=
  (isInfix_strip _).trans (List.takeWhile_prefix _).isInfix

theorem head?_text (part : Part) : part.text.head? = part.source.head? := by
  cases part <;> rfl

theorem getLast?_text (part : Part) : part.text.getLast? = part.source.getLast? := by
  cases part with
  | plain c => rfl
  | placeholder inside => rw [Part.text, Part.source, List.getLast?_concat, List.getLast?_concat]

/-- The text of a part has no split pair if its source has none: the name of a placeholder is cut from it, and
the braces around it are no surrogates. -/
theorem pairFree_text {part : Part} (h : part.source.PairFree) : part.text.PairFree := by
  cases part with
  | plain c => exact h
  | placeholder inside =>
    have hinside : inside.PairFree := h.of_isInfix ⟨[.ofChar '{'], [.ofChar '}'], rfl⟩
    have hclosed : Text.PairFree (name inside ++ [.ofChar '}']) := by
      refine List.isChain_append.mpr ⟨hinside.of_isInfix (isInfix_name inside), .singleton _, ?_⟩
      rintro a - b hb ⟨-, hlow⟩
      rw [List.head?_cons, Option.mem_some_iff] at hb
      rw [← hb] at hlow
      cases hlow
    -- braces are no surrogates
    refine List.isChain_cons.mpr ⟨?_, hclosed⟩
    rintro b - ⟨hhigh, -⟩
    cases hhigh

/-- Whether texts one after the other are pair-free depends on the texts themselves and on where they
meet. -/
theorem pairFree_flatMap_iff {f : Part → Text} (hne : ∀ part, f part ≠ []) (ps : List Part) :
    Text.PairFree (ps.flatMap f) ↔ (∀ part ∈ ps, (f part).PairFree) ∧
      ps.IsChain fun a b => ∀ c ∈ (f a).getLast?, ∀ d ∈ (f b).head?,
        ¬ (c.isHigh = true ∧ d.isLow = true) := by
  have hnil : [] ∉ ps.map f := by
    intro hmem
    obtain ⟨part, -, hpart⟩ := List.mem_map.mp hmem
    exact hne part hpart
  rw [Text.PairFree, List.flatMap_def, List.isChain_flatten hnil, List.forall_mem_map, List.isChain_map]
  rfl

/-- **Decoding keeps texts pair-free.** A part starts and ends like what it is cut from, and no name has
a pair that the placeholder does not have. -/
theorem pairFree_decode {t : Text} (h : t.PairFree) (comments : List Text) :
    (decode t comments).1.PairFree := by
  have hsource : ∀ part : Part, part.source ≠ [] := by
    intro part
    cases part <;> simp [Part.source]
  have htext : ∀ part : Part, part.text ≠ [] := by
    intro part
    cases part <;> simp [Part.text]
  -- the text and what becomes of it are made of the same parts, which meet at the same code points
  rw [← flatMap_source_parts t, pairFree_flatMap_iff hsource] at h
  show Text.PairFree ((parts t).flatMap Part.text)
  rw [pairFree_flatMap_iff htext]
  refine ⟨fun part hpart => pairFree_text (h.1 part hpart), ?_⟩
  simp only [head?_text, getLast?_text]
  exact h.2

end Placeholder

end Phrasebook
