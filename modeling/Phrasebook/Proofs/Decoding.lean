import Phrasebook.Proofs.Endings

/-!
# Phrasebook — the bytes of a source

A source is read whatever bytes its file holds. Where no character starts, the longest part that a
character could begin with is replaced as one; then every line end becomes a line feed. Neither step
makes a surrogate, and the script of a page adds only line feeds and semicolons: so the script of a
source can always be encoded, and its bytes are those of the same script again.

The decoder is a machine. Of what it holds of an unfinished character we keep, beside the bytes it has
read, which bytes can complete them: `Utf8.Holds`.

Main results:

* `Utf8.Reads`, `Utf8.Folds` — what bytes stand for, and line ends as line feeds;
* `Utf8.reads_decode`, `Utf8.Reads.unique` — the decoder reads bytes so, and in no other way;
* `Utf8.decode_encode` — encoded characters are read back;
* `Extraction.encodable_of_bytes` — the text of a file can be encoded, and so can its script.
-/

namespace Phrasebook

namespace Utf8

/-! ## What bytes stand for -/

/-- A character begins with the bytes. -/
def Begins (bytes : List UInt8) : Prop := ∃ c, bytes <+: String.utf8EncodeChar c

/-- Bytes with no character at their start. `part` is what is replaced: the longest part that a
character begins with, or else one byte. -/
structure IllFormed (part rest : List UInt8) : Prop where
  none : ∀ c, ¬ String.utf8EncodeChar c <+: part ++ rest
  ne_nil : part ≠ []
  begun : part.length = 1 ∨ Begins part
  longest : ∀ bytes, bytes <+: part ++ rest → Begins bytes → bytes.length ≤ part.length

/-- Bytes are read as characters: each stands for itself, and ill-formed parts for the replacement
character. -/
inductive Reads : List UInt8 → List Char → Prop
  | nil : Reads [] []
  | char (c : Char) {rest : List UInt8} {cs : List Char} (h : Reads rest cs) :
      Reads (String.utf8EncodeChar c ++ rest) (c :: cs)
  | illFormed {part rest : List UInt8} {cs : List Char} (hpart : IllFormed part rest) (h : Reads rest cs) :
      Reads (part ++ rest) (replacement :: cs)

/-- Every line end, which is a carriage return, a line feed or both in this order, becomes a line feed. -/
inductive Folds : List Char → List Char → Prop
  | nil : Folds [] []
  | pair {cs t : List Char} (h : Folds cs t) : Folds ('\r' :: '\n' :: cs) ('\n' :: t)
  | single {cs t : List Char} (hcs : cs.head? ≠ some '\n') (h : Folds cs t) : Folds ('\r' :: cs) ('\n' :: t)
  | other {c : Char} {cs t : List Char} (hc : c ≠ '\r') (h : Folds cs t) : Folds (c :: cs) (c :: t)

/-! ## The bytes of a character -/

/-- The numbers of the bytes of the character with the given number. -/
def units (n : Nat) : List Nat :=
  if n < 0x80 then [n]
  else if n < 0x800 then [0xC0 + n / 0x40, 0x80 + n % 0x40]
  else if n < 0x10000 then [0xE0 + n / 0x1000, 0x80 + n / 0x40 % 0x40, 0x80 + n % 0x40]
  else [0xF0 + n / 0x40000, 0x80 + n / 0x1000 % 0x40, 0x80 + n / 0x40 % 0x40, 0x80 + n % 0x40]

theorem toNat_lt (c : Char) : c.toNat < 0x110000 := (CodePoint.ofChar c).isLt

theorem toNat_utf8EncodeChar (c : Char) : (String.utf8EncodeChar c).map UInt8.toNat = units c.toNat := by
  have hlt := toNat_lt c
  have hval : c.val.toNat = c.toNat := rfl
  -- no unit is cut off by its byte, since the character has a number below the bound
  simp only [String.utf8EncodeChar, hval, ← Nat.lt_add_one_iff, Nat.reduceAdd, units]
  split_ifs <;> simp only [List.map, UInt8.toNat_ofNat', List.cons.injEq, and_true] <;> omega

theorem toNat_encodeChar (c : Char) : (encodeChar c).map UInt8.toNat = units c.toNat := by
  have hlt := toNat_lt c
  simp only [encodeChar, units]
  split_ifs <;> simp only [List.map, Nat.toUInt8, UInt8.toNat_ofNat', List.cons.injEq, and_true] <;> omega

theorem eq_of_map_toNat {bytes bytes' : List UInt8} (h : bytes.map UInt8.toNat = bytes'.map UInt8.toNat) :
    bytes = bytes' :=
  List.map_injective_iff.mpr (fun _ _ => UInt8.toNat.inj) h

/-- Characters are encoded as they should be. -/
theorem encodeChar_eq (c : Char) : encodeChar c = String.utf8EncodeChar c := by
  refine eq_of_map_toNat ?_
  rw [toNat_encodeChar, toNat_utf8EncodeChar]

theorem encode_eq (cs : List Char) : encode cs = cs.flatMap String.utf8EncodeChar :=
  List.flatMap_congr fun c _ => encodeChar_eq c

theorem utf8EncodeChar_eq_iff {c : Char} {bytes : List UInt8} :
    String.utf8EncodeChar c = bytes ↔ bytes.map UInt8.toNat = units c.toNat := by
  rw [← toNat_utf8EncodeChar]
  exact ⟨fun h => h ▸ rfl, fun h => (eq_of_map_toNat h).symm⟩

theorem toNat_ofNat {n : Nat} (h : n.isValidChar) : (Char.ofNat n).toNat = n := by
  rw [Char.ofNat, dif_pos h]
  rfl

/-- The bytes of a character, from their first one. -/
theorem cons_eq_units {m n : Nat} {tail : List Nat} (h : m :: tail = units n) :
    (n < 0x80 ∧ m = n ∧ tail = []) ∨
    (0x80 ≤ n ∧ n < 0x800 ∧ m = 0xC0 + n / 0x40 ∧ tail = [0x80 + n % 0x40]) ∨
    (0x800 ≤ n ∧ n < 0x10000 ∧ m = 0xE0 + n / 0x1000 ∧ tail = [0x80 + n / 0x40 % 0x40, 0x80 + n % 0x40]) ∨
    (0x10000 ≤ n ∧ m = 0xF0 + n / 0x40000 ∧
      tail = [0x80 + n / 0x1000 % 0x40, 0x80 + n / 0x40 % 0x40, 0x80 + n % 0x40]) := by
  rw [units] at h
  split_ifs at h <;> rw [List.cons.injEq] at h
  · exact .inl ⟨by omega, h⟩
  · exact .inr (.inl ⟨by omega, by omega, h⟩)
  · exact .inr (.inr (.inl ⟨by omega, by omega, h⟩))
  · exact .inr (.inr (.inr ⟨by omega, h⟩))

/-! ## Unfinished characters -/

/-- A continuation byte. -/
def Continues (b : UInt8) : Prop := 0x80 ≤ b.toNat ∧ b.toNat ≤ 0xBF

namespace Partial

/-- What the decoder holds after one more byte. -/
def after (p : Partial) (b : UInt8) : Partial := ⟨p.bits * 0x40 + (b.toNat - 0x80), p.owed - 1, 0x80, 0xBF⟩

/-- The byte can come next. -/
def Takes (p : Partial) (b : UInt8) : Prop := p.low ≤ b.toNat ∧ b.toNat ≤ p.high

/-- The bytes are all that an unfinished character waits for. -/
def Fits (p : Partial) : List UInt8 → Prop
  | [] => False
  | b :: rest => p.Takes b ∧ rest.length = p.owed - 1 ∧ ∀ next ∈ rest, Continues next

/-- The number of an unfinished character, with six bits more from each byte. -/
def number (p : Partial) (bytes : List UInt8) : Nat := (bytes.foldl after p).bits

theorem number_cons (p : Partial) (b : UInt8) (tail : List UInt8) :
    p.number (b :: tail) = (p.after b).number tail := by
  rw [number, number, List.foldl_cons]

theorem fits_last {p : Partial} (h : p.owed ≤ 1) {b : UInt8} {rest : List UInt8} :
    p.Fits (b :: rest) ↔ p.Takes b ∧ rest = [] := by
  rw [Fits, Nat.sub_eq_zero_of_le h, List.length_eq_zero_iff]
  refine and_congr_right fun _ => ⟨fun hrest => hrest.1, ?_⟩
  rintro rfl
  exact ⟨rfl, by simp⟩

/-- Where more than one byte is owed, a text fits if its first byte is taken and the rest fits what is then
owed. -/
theorem fits_more {p : Partial} (h : 1 < p.owed) {b : UInt8} {rest : List UInt8} :
    p.Fits (b :: rest) ↔ p.Takes b ∧ (p.after b).Fits rest := by
  rw [Fits]
  refine and_congr_right fun _ => ?_
  cases rest with
  | nil =>
    simp only [Fits, List.length_nil, iff_false]
    omega
  | cons next rest =>
    rw [Fits, List.forall_mem_cons, List.length_cons]
    show _ ↔ Continues next ∧ rest.length = p.owed - 1 - 1 ∧ _
    constructor
    · exact fun ⟨hlength, hnext, hrest⟩ => ⟨hnext, by omega, hrest⟩
    · exact fun ⟨hnext, hlength, hrest⟩ => ⟨by omega, hnext, hrest⟩

end Partial

/-- The decoder has read `part` of an unfinished character: what completes it is what fits. -/
structure Holds (part : List UInt8) (p : Partial) : Prop where
  completed : ∀ tail, p.Fits tail → ∃ c, String.utf8EncodeChar c = part ++ tail ∧ c.toNat = p.number tail
  fits : ∀ tail c, String.utf8EncodeChar c = part ++ tail → p.Fits tail
  none : ∀ c, ¬ String.utf8EncodeChar c <+: part
  ne_nil : part ≠ []
  begun : part.length = 1 ∨ Begins part

/-- A first byte leaves a character unfinished if what fits are the units of characters behind it. -/
theorem holds_single {b : UInt8} {p : Partial}
    (hcompleted : ∀ tail n, p.Fits tail → n = p.number tail →
      n.isValidChar ∧ b.toNat :: tail.map UInt8.toNat = units n)
    (hfits : ∀ tail n, n.isValidChar → b.toNat :: tail.map UInt8.toNat = units n → p.Fits tail) :
    Holds [b] p := by
  have hencoded : ∀ tail c, String.utf8EncodeChar c = b :: tail → p.Fits tail := fun tail c hc =>
    hfits tail c.toNat c.valid (utf8EncodeChar_eq_iff.mp hc)
  refine ⟨fun tail htail => ?_, hencoded, fun c hc => ?_, List.cons_ne_nil _ _, .inl rfl⟩
  · obtain ⟨hvalid, hunits⟩ := hcompleted tail _ htail rfl
    refine ⟨Char.ofNat (p.number tail), utf8EncodeChar_eq_iff.mpr ?_, toNat_ofNat hvalid⟩
    rw [toNat_ofNat hvalid]
    exact hunits
  · rw [← List.nil_append [b], List.prefix_concat_iff] at hc
    rcases hc with hwhole | hnil
    · exact hencoded [] c hwhole
    · exact String.utf8EncodeChar_ne_nil (List.prefix_nil.mp hnil)

/-- A first byte of two. -/
theorem holds_two {b : UInt8} {bits : Nat} (hb : bits + 0xC0 = b.toNat) (hbits : 2 ≤ bits ∧ bits < 0x20) :
    Holds [b] ⟨bits, 1, 0x80, 0xBF⟩ := by
  apply holds_single
  · rintro (_ | ⟨x, rest⟩) n htail hn
    · exact htail.elim
    · obtain ⟨⟨hlow, hhigh⟩, hlength, -⟩ := htail
      obtain rfl := List.length_eq_zero_iff.mp hlength
      change n = bits * 0x40 + (x.toNat - 0x80) at hn
      dsimp only at hlow hhigh
      refine ⟨.inl (by omega), ?_⟩
      rw [units, if_neg (by omega), if_pos (by omega)]
      simp only [List.map, List.cons.injEq, and_true]
      omega
  · intro tail n hvalid hunits
    -- the first byte of a character says how many there are
    rcases cons_eq_units hunits with hone | htwo | hthree | hfour
    · omega
    · obtain ⟨hmin, hmax, hfirst, hrest⟩ := htwo
      simp only [List.map_eq_cons_iff, List.map_eq_nil_iff] at hrest
      obtain ⟨x, _, rfl, hx, rfl⟩ := hrest
      have hx : 0x80 ≤ x.toNat ∧ x.toNat ≤ 0xBF := by omega
      exact ⟨hx, rfl, by simp⟩
    · omega
    · omega

/-- A first byte of three. The next byte makes neither an overlong form nor a surrogate. -/
theorem holds_three {b : UInt8} {bits low high : Nat} (hb : bits + 0xE0 = b.toNat) (hbits : bits < 0x10)
    (hrange : ∀ x, low ≤ x ∧ x ≤ high ↔ 0x80 ≤ x ∧ x ≤ 0xBF ∧ 0x20 ≤ bits * 0x40 + (x - 0x80) ∧
      (bits * 0x40 + (x - 0x80) < 0x360 ∨ 0x380 ≤ bits * 0x40 + (x - 0x80))) :
    Holds [b] ⟨bits, 2, low, high⟩ := by
  apply holds_single
  · rintro (_ | ⟨x, rest⟩) n htail hn
    · exact htail.elim
    · -- the last six bits are free, so that the first two bytes bound the number
      obtain ⟨hx, hlength, hrest⟩ := htail
      obtain ⟨y, rfl⟩ := List.length_eq_one_iff.mp hlength
      obtain ⟨hlow, hhigh, hmin, hmax⟩ := (hrange _).mp hx
      obtain ⟨hylow, hyhigh⟩ := hrest y (List.mem_singleton_self y)
      change n = (bits * 0x40 + (x.toNat - 0x80)) * 0x40 + (y.toNat - 0x80) at hn
      constructor
      · rw [Nat.isValidChar]
        omega
      · rw [units, if_neg (by omega), if_neg (by omega), if_pos (by omega)]
        simp only [List.map, List.cons.injEq, and_true]
        omega
  · intro tail n hvalid hunits
    rw [Nat.isValidChar] at hvalid
    rcases cons_eq_units hunits with hone | htwo | hthree | hfour
    · omega
    · omega
    · obtain ⟨hmin, hmax, hfirst, hrest⟩ := hthree
      simp only [List.map_eq_cons_iff, List.map_eq_nil_iff] at hrest
      obtain ⟨x, _, rfl, hx, y, _, rfl, hy, rfl⟩ := hrest
      have hy : Continues y := ⟨by omega, by omega⟩
      exact ⟨(hrange _).mpr (by omega), rfl, by simpa using hy⟩
    · omega

/-- A first byte of four. The next byte makes no overlong form, and no number beyond the last one. -/
theorem holds_four {b : UInt8} {bits low high : Nat} (hb : bits + 0xF0 = b.toNat) (hbits : bits < 5)
    (hrange : ∀ x, low ≤ x ∧ x ≤ high ↔ 0x80 ≤ x ∧ x ≤ 0xBF ∧ 0x10 ≤ bits * 0x40 + (x - 0x80) ∧
      bits * 0x40 + (x - 0x80) < 0x110) :
    Holds [b] ⟨bits, 3, low, high⟩ := by
  apply holds_single
  -- the bytes that fit spell a number
  · rintro (_ | ⟨x, rest⟩) n htail hn
    · exact htail.elim
    · obtain ⟨hx, hlength, hrest⟩ := htail
      -- three bytes follow, the first of them in the narrower range
      obtain ⟨y, z, rfl⟩ := List.length_eq_two.mp hlength
      obtain ⟨hlow, hhigh, hmin, hmax⟩ := (hrange _).mp hx
      obtain ⟨hylow, hyhigh⟩ := hrest y (by simp)
      obtain ⟨hzlow, hzhigh⟩ := hrest z (by simp)
      change n = ((bits * 0x40 + (x.toNat - 0x80)) * 0x40 + (y.toNat - 0x80)) * 0x40 + (z.toNat - 0x80) at hn
      constructor
      · rw [Nat.isValidChar]
        omega
      · rw [units, if_neg (by omega), if_neg (by omega), if_neg (by omega)]
        simp only [List.map, List.cons.injEq, and_true]
        omega
  -- a number whose bytes start so has four of them
  · intro tail n hvalid hunits
    rw [Nat.isValidChar] at hvalid
    rcases cons_eq_units hunits with hone | htwo | hthree | hfour
    · omega
    · omega
    · omega
    -- the lengths of the other three forms do not fit
    · obtain ⟨hmin, hfirst, hrest⟩ := hfour
      simp only [List.map_eq_cons_iff, List.map_eq_nil_iff] at hrest
      obtain ⟨x, _, rfl, hx, y, _, rfl, hy, z, _, rfl, hz, rfl⟩ := hrest
      have hy : Continues y := ⟨by omega, by omega⟩
      have hz : Continues z := ⟨by omega, by omega⟩
      exact ⟨(hrange _).mpr (by omega), rfl, by simpa using ⟨hy, hz⟩⟩

/-- A first byte that no character has. -/
theorem illFormed_single {b : UInt8} (hb : ∀ c tail, String.utf8EncodeChar c ≠ b :: tail) (rest : List UInt8) :
    IllFormed [b] rest := by
  refine ⟨fun c hc => ?_, List.cons_ne_nil _ _, .inl rfl, fun bytes hbytes hbegins => ?_⟩
  · rcases List.prefix_cons_iff.mp hc with hnil | ⟨tail, hcons, -⟩
    · exact String.utf8EncodeChar_ne_nil hnil
    · exact hb c tail hcons
  · rcases List.prefix_cons_iff.mp hbytes with rfl | ⟨tail, rfl, -⟩
    · exact Nat.zero_le _
    · obtain ⟨c, more, hc⟩ := hbegins
      exact (hb c _ hc.symm).elim

/-- **Base.** A first byte is a character, no character begins with it, or it leaves one unfinished. -/
theorem first_cases (b : UInt8) :
    (∃ c, first b.toNat = .done c ∧ String.utf8EncodeChar c = [b]) ∨
    (first b.toNat = .done replacement ∧ ∀ c tail, String.utf8EncodeChar c ≠ b :: tail) ∨
    ∃ p, first b.toNat = .more p ∧ Holds [b] p := by
  have hlt := b.toNat_lt
  have hrefused (hb : (0x80 ≤ b.toNat ∧ b.toNat < 0xC2) ∨ 0xF5 ≤ b.toNat) (c : Char) (tail : List UInt8) :
      String.utf8EncodeChar c ≠ b :: tail := by
    intro hc
    have hbound := toNat_lt c
    rcases cons_eq_units (utf8EncodeChar_eq_iff.mp hc) with hone | htwo | hthree | hfour
    · omega
    · omega
    · omega
    · omega
  -- the branches differ in what the next byte may be
  generalize hf : first b.toNat = found
  simp only [first, Bool.and_eq_true, decide_eq_true_eq, beq_iff_eq] at hf
  split at hf
  · next hascii =>
    refine .inl ⟨_, hf.symm, utf8EncodeChar_eq_iff.mpr ?_⟩
    rw [toNat_ofNat (.inl (by omega)), units, if_pos hascii]
    rfl
  right
  split at hf
  · exact .inr ⟨_, hf.symm, holds_two (by omega) (by omega)⟩
  split at hf
  · exact .inr ⟨_, hf.symm, holds_three (by omega) (by omega) (by omega)⟩
  split at hf
  · exact .inr ⟨_, hf.symm, holds_three (by omega) (by omega) (by omega)⟩
  split at hf
  · exact .inr ⟨_, hf.symm, holds_three (by omega) (by omega) (by omega)⟩
  split at hf
  · exact .inr ⟨_, hf.symm, holds_four (by omega) (by omega) (by omega)⟩
  split at hf
  · exact .inr ⟨_, hf.symm, holds_four (by omega) (by omega) (by omega)⟩
  split at hf
  · exact .inr ⟨_, hf.symm, holds_four (by omega) (by omega) (by omega)⟩
  · exact .inl ⟨hf.symm, hrefused (by omega)⟩

section

variable {part : List UInt8} {p : Partial} {b : UInt8}

/-- **Step.** A byte that can come next, but not as the last one. -/
theorem Holds.more (h : Holds part p) (hb : p.Takes b) (howed : 1 < p.owed) : Holds (part ++ [b]) (p.after b) := by
  refine ⟨fun tail htail => ?_, fun tail c hc => ?_, fun c hc => ?_, by simp, .inr ?_⟩
  · rw [List.append_assoc, ← Partial.number_cons]
    exact h.completed (b :: tail) ((Partial.fits_more howed).mpr ⟨hb, htail⟩)
  · rw [List.append_assoc] at hc
    exact ((Partial.fits_more howed).mp (h.fits (b :: tail) c hc)).2
  · rcases List.prefix_concat_iff.mp hc with hwhole | hpart
    · exact ((Partial.fits_more howed).mp (h.fits [b] c hwhole)).2
    · exact h.none c hpart
  · -- continuation bytes complete the part, whichever they are
    have hfits : p.Fits (b :: List.replicate (p.owed - 1) 0x80) := ⟨hb, by simp, by simp [Continues]⟩
    obtain ⟨c, hc, -⟩ := h.completed _ hfits
    exact ⟨c, _, by rw [hc, List.append_assoc, List.singleton_append]⟩

/-- **Step.** The last byte of a character. -/
theorem Holds.last (h : Holds part p) (hb : p.Takes b) (howed : p.owed ≤ 1) :
    String.utf8EncodeChar (Char.ofNat (p.after b).bits) = part ++ [b] := by
  obtain ⟨c, hc, hnumber⟩ := h.completed [b] ((Partial.fits_last howed).mpr ⟨hb, rfl⟩)
  have hbits : (p.after b).bits = c.toNat := hnumber.symm
  rw [hbits, Char.ofNat_toNat, hc]

/-- **Step.** What is unfinished is ill-formed at the end of the bytes, and before a byte that cannot come
next. -/
theorem Holds.illFormed (h : Holds part p) {rest : List UInt8} (hrest : ∀ b ∈ rest.head?, ¬ p.Takes b) :
    IllFormed part rest := by
  -- a character that begins with the part would go on with the next byte
  have hstop (tail more : List UInt8) (c : Char) (htail : tail <+: rest)
      (hc : String.utf8EncodeChar c = part ++ (tail ++ more)) : tail = [] := by
    cases tail with
    | nil => rfl
    | cons b tail =>
      obtain ⟨rest, rfl⟩ := htail
      exact (hrest b rfl (h.fits _ c hc).1).elim
  refine ⟨fun c hc => ?_, h.ne_nil, h.begun, fun bytes hbytes hbegins => ?_⟩
  · rcases List.prefix_or_prefix_of_prefix hc (List.prefix_append part rest) with hpart | ⟨tail, htail⟩
    · exact h.none c hpart
    · rw [← htail, List.prefix_append_right_inj] at hc
      obtain rfl := hstop tail [] c hc (by rw [List.append_nil, htail])
      exact h.fits [] c htail.symm
  · rcases List.prefix_or_prefix_of_prefix hbytes (List.prefix_append part rest) with hpart | ⟨tail, rfl⟩
    · exact hpart.length_le
    · rw [List.prefix_append_right_inj] at hbytes
      obtain ⟨c, more, hc⟩ := hbegins
      rw [List.append_assoc] at hc
      obtain rfl := hstop tail more c hbytes hc.symm
      rw [List.append_nil]

end

/-! ## The decoder -/

/-- What is decoded comes behind the characters read so far. -/
theorem decodeFrom_eq (read : List Char) (state : Option Partial) (bytes : List UInt8) :
    decodeFrom read state bytes = read.reverse ++ decodeFrom [] state bytes := by
  induction bytes generalizing read state with
  | nil =>
    cases state with
    | none => simp [decodeFrom]
    | some p => simp [decodeFrom]
  | cons b rest ih =>
    -- a byte adds `kept` to what is read already
    have hkept (kept : List Char) (state : Option Partial) :
        decodeFrom (kept ++ read) state rest = read.reverse ++ decodeFrom kept state rest := by
      rw [ih (kept ++ read), ih kept, List.reverse_append, List.append_assoc]
    cases state with
    | none =>
      rw [decodeFrom, decodeFrom]
      cases first b.toNat with
      | done c => exact hkept [c] none
      | more p => exact hkept [] (some p)
    | some p =>
      rw [decodeFrom, decodeFrom]
      split
      · split
        · exact hkept [_] none
        · exact hkept [] (some _)
      · cases first b.toNat with
        | done c => exact hkept [c, replacement] none
        | more q => exact hkept [replacement] (some q)

section

variable {b : UInt8} {p : Partial} (rest : List UInt8)

theorem decodeFrom_done {c : Char} (h : first b.toNat = .done c) :
    decodeFrom [] none (b :: rest) = c :: decodeFrom [] none rest := by
  rw [decodeFrom, h]
  exact decodeFrom_eq [c] none rest

theorem decodeFrom_first (h : first b.toNat = .more p) :
    decodeFrom [] none (b :: rest) = decodeFrom [] (some p) rest := by
  rw [decodeFrom, h]

theorem decodeFrom_last (hb : p.Takes b) (howed : p.owed ≤ 1) :
    decodeFrom [] (some p) (b :: rest) = Char.ofNat (p.after b).bits :: decodeFrom [] none rest := by
  have htakes : (p.low ≤ b.toNat && b.toNat ≤ p.high) = true := by simpa [Partial.Takes] using hb
  rw [decodeFrom, if_pos htakes, if_pos howed, decodeFrom_eq]
  rfl

theorem decodeFrom_more (hb : p.Takes b) (howed : 1 < p.owed) :
    decodeFrom [] (some p) (b :: rest) = decodeFrom [] (some (p.after b)) rest := by
  have htakes : (p.low ≤ b.toNat && b.toNat ≤ p.high) = true := by simpa [Partial.Takes] using hb
  rw [decodeFrom, if_pos htakes, if_neg (Nat.not_le.mpr howed)]
  rfl

/-- A byte that cannot come next is looked at again. -/
theorem decodeFrom_refused (hb : ¬ p.Takes b) :
    decodeFrom [] (some p) (b :: rest) = replacement :: decodeFrom [] none (b :: rest) := by
  have htakes : ¬ (p.low ≤ b.toNat && b.toNat ≤ p.high) = true := by simpa [Partial.Takes] using hb
  have hagain : decodeFrom [replacement] none (b :: rest) = replacement :: decodeFrom [] none (b :: rest) :=
    decodeFrom_eq [replacement] none (b :: rest)
  rw [decodeFrom] at hagain
  rw [← hagain, decodeFrom, if_neg htakes]

end

/-- **Run.** From the start the decoder reads all bytes, and from an unfinished character also those it
has read already. -/
theorem reads_decodeFrom (bytes : List UInt8) :
    Reads bytes (decodeFrom [] none bytes) ∧
    ∀ {part p}, Holds part p → Reads (part ++ bytes) (decodeFrom [] (some p) bytes) := by
  -- both at once: a first byte leaves a character unfinished, and a refused byte is a first one again
  induction bytes with
  | nil => exact ⟨.nil, fun h => .illFormed (h.illFormed (by simp)) .nil⟩
  | cons b rest ih =>
    have hstart : Reads (b :: rest) (decodeFrom [] none (b :: rest)) := by
      rcases first_cases b with ⟨c, hfirst, hc⟩ | ⟨hfirst, hnone⟩ | ⟨p, hfirst, hp⟩
      · rw [decodeFrom_done rest hfirst, ← List.singleton_append, ← hc]
        exact .char c ih.1
      · rw [decodeFrom_done rest hfirst, ← List.singleton_append]
        exact .illFormed (illFormed_single hnone rest) ih.1
      · rw [decodeFrom_first rest hfirst, ← List.singleton_append]
        exact ih.2 hp
    refine ⟨hstart, fun {part p} h => ?_⟩
    by_cases hb : p.Takes b
    · rcases Nat.lt_or_ge 1 p.owed with hmore | hlast
      · rw [decodeFrom_more rest hb hmore, List.append_cons]
        exact ih.2 (h.more hb hmore)
      · rw [decodeFrom_last rest hb hlast, List.append_cons, ← h.last hb hlast]
        exact .char _ ih.1
    · rw [decodeFrom_refused rest hb]
      exact .illFormed (h.illFormed (by simpa using hb)) hstart

/-- **The decoder reads bytes** as they should be read. -/
theorem reads_decode (bytes : List UInt8) : Reads bytes (decode bytes) := (reads_decodeFrom bytes).1

/-! ## Reading back -/

/-- No encoding of a character is the start of another: what follows it is determined. -/
theorem utf8EncodeChar_append_inj {c c' : Char} {rest rest' : List UInt8}
    (h : String.utf8EncodeChar c ++ rest = String.utf8EncodeChar c' ++ rest') : c = c' ∧ rest = rest' := by
  have hread (c : Char) (rest : List UInt8) :
      (String.utf8EncodeChar c ++ rest).toByteArray.utf8DecodeChar? 0 = some c := by
    rw [List.toByteArray_append]
    exact ByteArray.utf8DecodeChar?_utf8EncodeChar_append
  obtain rfl : c = c' := by
    have hsame := hread c rest
    rw [h, hread] at hsame
    exact (Option.some.inj hsame).symm
  exact ⟨rfl, List.append_cancel_left h⟩

theorem IllFormed.length_le {part part' rest rest' : List UInt8} (h : IllFormed part rest)
    (h' : IllFormed part' rest') (hsame : part ++ rest = part' ++ rest') : part.length ≤ part'.length := by
  rcases h.begun with hone | hbegins
  · rw [hone]
    exact List.length_pos_iff.mpr h'.ne_nil
  · exact h'.longest part (hsame ▸ List.prefix_append part rest) hbegins

/-- **Bytes are read in one way.** -/
theorem Reads.unique {bytes : List UInt8} {cs cs' : List Char} (h : Reads bytes cs) (h' : Reads bytes cs') :
    cs = cs' := by
  induction h generalizing cs' with
  | nil =>
    generalize hbytes : ([] : List UInt8) = bytes at h'
    cases h' with
    | nil => rfl
    | char c h' => exact (String.utf8EncodeChar_ne_nil (List.append_eq_nil_iff.mp hbytes.symm).1).elim
    | illFormed hpart h' => exact (hpart.ne_nil (List.append_eq_nil_iff.mp hbytes.symm).1).elim
  | @char c rest cs h ih =>
    generalize hbytes : String.utf8EncodeChar c ++ rest = bytes at h'
    cases h' with
    | nil => exact (String.utf8EncodeChar_ne_nil (List.append_eq_nil_iff.mp hbytes).1).elim
    | char c' h' =>
      obtain ⟨rfl, rfl⟩ := utf8EncodeChar_append_inj hbytes
      rw [ih h']
    | illFormed hpart h' => exact (hpart.none c (hbytes ▸ List.prefix_append _ _)).elim
  | @illFormed part rest cs hpart h ih =>
    generalize hbytes : part ++ rest = bytes at h'
    cases h' with
    | nil => exact (hpart.ne_nil (List.append_eq_nil_iff.mp hbytes).1).elim
    | char c' h' => exact (hpart.none c' (hbytes ▸ List.prefix_append _ _)).elim
    | illFormed hpart' h' =>
      -- both parts are the longest, so that they end together
      have hlength := Nat.le_antisymm (hpart.length_le hpart' hbytes) (hpart'.length_le hpart hbytes.symm)
      obtain ⟨rfl, rfl⟩ := List.append_inj hbytes hlength
      rw [ih h']

theorem reads_encode (cs : List Char) : Reads (encode cs) cs := by
  rw [encode_eq]
  induction cs with
  | nil => exact .nil
  | cons c cs ih => exact .char c ih

/-- **Encoded characters are read back.** -/
theorem decode_encode (cs : List Char) : decode (encode cs) = cs :=
  (reads_decode (encode cs)).unique (reads_encode cs)

/-! ## Line ends -/

/-- **Line ends** are folded as they should be. -/
theorem folds_foldNewlines (cs : List Char) : Folds cs (foldNewlines cs) := by
  -- behind a carriage return a line feed is dropped
  have hboth : Folds cs (foldNewlinesFrom false cs) ∧ Folds ('\r' :: cs) ('\n' :: foldNewlinesFrom true cs) := by
    induction cs with
    | nil => exact ⟨.nil, .single (by simp) .nil⟩
    | cons c rest ih =>
      have hfirst : Folds (c :: rest) (foldNewlinesFrom false (c :: rest)) := by
        by_cases hreturn : c = '\r'
        · subst hreturn
          exact ih.2
        · have hfold : foldNewlinesFrom false (c :: rest) = c :: foldNewlinesFrom false rest := by
            simp [foldNewlinesFrom, hreturn]
          rw [hfold]
          exact .other hreturn ih.1
      refine ⟨hfirst, ?_⟩
      by_cases hfeed : c = '\n'
      · subst hfeed
        exact .pair ih.1
      · have hfold : foldNewlinesFrom true (c :: rest) = foldNewlinesFrom false (c :: rest) := by
          simp [foldNewlinesFrom, hfeed]
        rw [hfold]
        exact .single (by simpa using hfeed) hfirst
  exact hboth.1

theorem Folds.return_not_mem {cs t : List Char} (h : Folds cs t) : '\r' ∉ t := by
  induction h with
  | nil => simp
  | pair h ih => simp [ih]
  | single hcs h ih => simp [ih]
  | other hc h ih => simp [ih, Ne.symm hc]

end Utf8

/-! ## Sources -/

/-- The standard transforms give what can be encoded, so that only parsing can fail. -/
theorem Source.parse_ne_unencodable (path : Text) (cs : List Char) (offset : Nat) (surrogates : Text) :
    parse Registry.standard path (Text.ofChars cs) ≠ .error (.unencodable offset surrogates) := by
  intro hparse
  cases hfind : Registry.standard.find? (Path.extension path) with
  | none =>
    rw [parse, code, hfind] at hparse
    cases hparse
  | some transform =>
    have hcovers : Registry.standard.covers (Path.extension path) = true := by
      rw [Registry.covers, hfind]
      rfl
    obtain ⟨script, hscript⟩ := exists_code_standard hcovers cs
    rw [parse_of_code hscript] at hparse
    rcases error_of_tree hparse with ⟨line, hline⟩ | ⟨⟨failure, hfailure⟩, -⟩
    · cases hline
    · cases hfailure

namespace Extraction

/-- **Files and encodings.** Whatever bytes a file holds, they are read in one way. Their text has no
surrogate and no carriage return, and the script of a page has only line feeds and semicolons beside the
code points of the page. So what the standard transforms make of the text can be encoded, and what was
encoded is read back. -/
theorem encodable_of_bytes {disk : Disk} {path : Text} {bytes : List UInt8} (hpath : Path.check path = .ok ())
    (hread : disk.read path = .ok bytes) :
    ∃ chars folded,
      (∀ cs, Utf8.Reads bytes cs ↔ cs = chars) ∧ Utf8.Folds chars folded ∧
      readSource disk path = .ok (Text.ofChars folded) ∧
      (∀ c ∈ Text.ofChars folded, c.isSurrogate = false ∧ c ≠ .ofChar '\r') ∧
      (∀ c ∈ Page.code (Text.ofChars folded),
        c ∈ Text.ofChars folded ∨ c = .ofChar '\n' ∨ c = .ofChar ';') ∧
      (∀ extension transform, Registry.standard.find? extension = some transform →
        ∃ script, transform (Text.ofChars folded) = .ok (Text.ofChars script) ∧
          Source.characters (Text.ofChars script) = .ok script ∧
          Utf8.encode script = script.flatMap String.utf8EncodeChar ∧
          Utf8.decode (Utf8.encode script) = script) ∧
      ∀ offset surrogates,
        Source.parse Registry.standard path (Text.ofChars folded) ≠ .error (.unencodable offset surrogates) := by
  -- the two steps of reading: the bytes are decoded, and line ends become line feeds
  have hreads := Utf8.reads_decode bytes
  have hfolds := Utf8.folds_foldNewlines (Utf8.decode bytes)
  refine ⟨Utf8.decode bytes, Utf8.foldNewlines (Utf8.decode bytes), fun cs => ⟨fun h => h.unique hreads, ?_⟩,
    hfolds, ?_, fun c hc => ?_, fun c => Page.mem_code, fun extension transform hfind => ?_,
    Source.parse_ne_unencodable path _⟩
  · rintro rfl
    exact hreads
  · rw [readSource, hpath, hread]
    rfl
  -- code points made of characters are no surrogates
  · obtain ⟨ch, hch, rfl⟩ := List.mem_map.mp hc
    refine ⟨CodePoint.isSurrogate_ofChar ch, fun hreturn => ?_⟩
    rw [CodePoint.ofChar_injective hreturn] at hch
    exact hfolds.return_not_mem hch
  -- the transforms of the registry give characters for characters
  · obtain ⟨script, hscript⟩ := Registry.exists_ofChars_of_find? hfind (Utf8.foldNewlines (Utf8.decode bytes))
    refine ⟨script, hscript, ?_, Utf8.encode_eq script, Utf8.decode_encode script⟩
    rw [Source.characters, Text.toChars?_ofChars]

/-- A page whose bytes are no UTF-8 in many ways: an overlong form, an encoded surrogate, a number beyond
the last code point, and characters that end early, before a line end and at the end of the file. -/
def brokenPage : List UInt8 :=
  Utf8.encode "<script>".toList ++
    [0xC0, 0xAF, 0xED, 0xA0, 0x80, 0xE2, 0x82, 0x0D, 0x0A, 0xF4, 0x90, 0x80, 0x80, 0x0D] ++
    Utf8.encode "</script>".toList ++ [0xE2, 0x82]

/-- The page is decoded with replacement characters and without returns, and what it holds can be encoded again.
-/
theorem encodable_of_bytes_brokenPage :
    let fs : FileSystem := { items := [(["page.html"], .file brokenPage)] }
    let text : Text :=
      "<script>\ufffd\ufffd\ufffd\ufffd\ufffd\ufffd\n\ufffd\ufffd\ufffd\ufffd\n</script>\ufffd"
    readSource fs.disk "page.html" = .ok text ∧ (∀ c ∈ text, c.isSurrogate = false ∧ c ≠ .ofChar '\r') ∧
    Page.code text = ";\ufffd\ufffd\ufffd\ufffd\ufffd\ufffd\n\ufffd\ufffd\ufffd\ufffd\n;" ∧
    ∀ offset surrogates,
      Source.parse Registry.standard "page.html" text ≠ .error (.unencodable offset surrogates) := by
  intro fs text
  have hread : fs.disk.read "page.html" = .ok brokenPage := by decide +kernel
  obtain ⟨chars, folded, -, -, hsource, hclean, -, -, hparse⟩ := encodable_of_bytes (by decide) hread
  have htext : readSource fs.disk "page.html" = .ok text := by decide +kernel
  have hfolded : Text.ofChars folded = text := Except.ok.inj (hsource.symm.trans htext)
  rw [hfolded] at hclean hparse
  exact ⟨htext, hclean, by decide +kernel, hparse⟩

end Extraction

end Phrasebook
