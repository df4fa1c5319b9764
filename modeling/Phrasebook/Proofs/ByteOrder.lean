import Mathlib.Data.Set.Function
import Phrasebook.Proofs.DescendingOrder
import Phrasebook.Proofs.SurrogatePairs

/-!
# Phrasebook — code units as bytes

A text can be compared with another by its UTF-16 code units, or by the bytes in which they are written. With the
higher byte of every unit first, both orders are the same: two units are compared by their higher bytes, and by
their lower ones where these agree. It is neither the order of code points, which has those beyond `0xFFFF` behind
all others, nor that of the bytes with the lower one first.

A byte string tells the code units, and these tell the text up to surrogate pairs that are not joined. So texts with
the same bytes are those that become equal when their pairs are joined, and pair-free texts can be told apart by
their bytes.

Main results:

* `Text.compare_bytesOfUnits` — sequences of code units are compared as their bytes are;
* `Text.unitsLe_eq_isLE` — the order in which a catalog sorts comments is the order of their bytes;
* `Text.compare_utf16Bytes` — what can be told of two texts from their bytes.
-/

namespace Phrasebook.Text

/-- The bytes of code units, the higher byte of each one first. -/
def bytesOfUnits (units : List Nat) : List UInt8 :=
  units.flatMap fun unit => [.ofNat (unit / 0x100), .ofNat (unit % 0x100)]

/-- A text in UTF-16 with the higher bytes first. Surrogates that are not part of a pair are written like any other
code unit. -/
def utf16Bytes (t : Text) : List UInt8 := bytesOfUnits t.units

/-! ## One code unit -/

theorem lt_of_mem_units {t : Text} : ∀ unit ∈ t.units, unit < 0x10000 := by
  intro unit hunit
  obtain ⟨c, -, hc⟩ := List.mem_flatMap.mp hunit
  have hlt := c.isLt
  rw [CodePoint.units] at hc
  split at hc
  · rw [List.mem_singleton.mp hc]
    assumption
  · simp only [List.mem_cons, List.not_mem_nil, or_false] at hc
    omega

theorem compare_byte (m n : Nat) :
    compare (UInt8.ofNat m) (UInt8.ofNat n) = compare (m % 0x100) (n % 0x100) := by
  simp only [compare, compareOfLessAndEq, UInt8.lt_iff_toNat_lt, ← UInt8.toNat_inj, UInt8.toNat_ofNat']

/-- Numbers are compared by their quotients, and by their remainders where these agree. -/
theorem compare_div_then_mod (m n base : Nat) :
    (compare (m / base) (n / base)).then (compare (m % base) (n % base)) = compare m n := by
  have hm := Nat.div_add_mod m base
  have hn := Nat.div_add_mod n base
  rcases Nat.lt_trichotomy (m / base) (n / base) with hlt | heq | hgt
  · rw [Nat.compare_eq_lt.mpr hlt, Ordering.lt_then, Nat.compare_eq_lt.mpr]
    exact lt_of_not_ge fun hle => absurd (Nat.div_le_div_right hle) (Nat.not_le.mpr hlt)
  · -- the quotients agree, and the numbers differ as their remainders do
    rw [Nat.compare_eq_eq.mpr heq, Ordering.eq_then]
    rw [heq] at hm
    rcases Nat.lt_trichotomy (m % base) (n % base) with h | h | h
    · rw [Nat.compare_eq_lt.mpr h, Nat.compare_eq_lt.mpr (by omega)]
    · rw [Nat.compare_eq_eq.mpr h, Nat.compare_eq_eq.mpr (by omega)]
    · rw [Nat.compare_eq_gt.mpr h, Nat.compare_eq_gt.mpr (by omega)]
  · rw [Nat.compare_eq_gt.mpr hgt, Ordering.gt_then, Nat.compare_eq_gt.mpr]
    exact lt_of_not_ge fun hle => absurd (Nat.div_le_div_right hle) (Nat.not_le.mpr hgt)

/-- Two code units are compared by their higher bytes, and by their lower ones where these agree. -/
theorem compare_bytes_of_unit {u v : Nat} (hu : u < 0x10000) (hv : v < 0x10000) :
    (compare (UInt8.ofNat (u / 0x100)) (UInt8.ofNat (v / 0x100))).then
      (compare (UInt8.ofNat (u % 0x100)) (UInt8.ofNat (v % 0x100))) = compare u v := by
  -- units are below `0x10000`, so that no byte is cut off
  rw [compare_byte, compare_byte, Nat.mod_mod, Nat.mod_mod, Nat.mod_eq_of_lt (by omega),
    Nat.mod_eq_of_lt (by omega), compare_div_then_mod]

/-! ## All code units -/

/-- **Two bytes for each unit.** Sequences of code units are compared as their bytes are. -/
theorem compare_bytesOfUnits {us vs : List Nat} (hus : ∀ u ∈ us, u < 0x10000) (hvs : ∀ v ∈ vs, v < 0x10000) :
    compare (bytesOfUnits us) (bytesOfUnits vs) = compare us vs := by
  induction us generalizing vs with
  | nil =>
    cases vs with
    | nil => rfl
    | cons v vs => rfl
  | cons u us ih =>
    cases vs with
    | nil => rfl
    | cons v vs =>
      obtain ⟨hu, hus⟩ := List.forall_mem_cons.mp hus
      obtain ⟨hv, hvs⟩ := List.forall_mem_cons.mp hvs
      -- two bytes are compared at once, as the one unit that they stand for
      have hbytes : ∀ (w : Nat) (ws : List Nat), bytesOfUnits (w :: ws) =
          .ofNat (w / 0x100) :: .ofNat (w % 0x100) :: bytesOfUnits ws := fun _ _ => rfl
      rw [hbytes, hbytes, List.compare_cons_cons, List.compare_cons_cons, ← Ordering.then_assoc,
        compare_bytes_of_unit hu hv, ih hus hvs, List.compare_cons_cons]

/-- The order of unit sequences is the lexicographic one. -/
theorem unitListLe_eq_isLE (us vs : List Nat) : unitListLe us vs = (compare us vs).isLE := by
  induction us generalizing vs with
  | nil => cases vs <;> rfl
  | cons u us ih =>
    cases vs with
    | nil => rfl
    | cons v vs =>
      rw [unitListLe, ih, List.compare_cons_cons]
      rcases Nat.lt_trichotomy u v with h | rfl | h
      · simp [h, Nat.compare_eq_lt.mpr h]
      · simp
      · simp [Nat.compare_eq_gt.mpr h, Nat.not_lt.mpr h.le, h.ne']

/-- **The order of bytes.** In the order of a catalog, a text comes before another if its bytes do. -/
theorem unitsLe_eq_isLE (a b : Text) : a.unitsLe b = (compare a.utf16Bytes b.utf16Bytes).isLE := by
  rw [unitsLe, unitListLe_eq_isLE, utf16Bytes, utf16Bytes, compare_bytesOfUnits lt_of_mem_units lt_of_mem_units]

/-- Texts with the same code units are those with the same joined pairs. -/
theorem units_eq_iff {a b : Text} : a.units = b.units ↔ a.joinPairs = b.joinPairs := by
  constructor
  · intro h
    refine eq_of_units_eq (pairFree_joinPairs a) (pairFree_joinPairs b) ?_
    simpa using h
  · intro h
    simpa using congrArg units h

/-- Bytes tell the code units. -/
theorem utf16Bytes_eq_iff {a b : Text} : a.utf16Bytes = b.utf16Bytes ↔ a.units = b.units := by
  rw [← Std.compare_eq_iff_eq, utf16Bytes, utf16Bytes, compare_bytesOfUnits lt_of_mem_units lt_of_mem_units,
    Std.compare_eq_iff_eq]

/-- **Texts by their bytes.** Texts are compared as bytes in the same way as by their code units. They have the same
bytes if they become equal when all surrogate pairs are joined, so that no two pair-free texts have the same
bytes. The comments of an entry are sorted by their bytes: from the largest to the smallest, and those with the same
bytes stay in their order. -/
theorem compare_utf16Bytes :
    (∀ a b : Text, compare a.utf16Bytes b.utf16Bytes = compare a.units b.units) ∧
    (∀ a b : Text, a.utf16Bytes = b.utf16Bytes ↔ a.joinPairs = b.joinPairs) ∧
    Set.InjOn utf16Bytes {t | t.PairFree} ∧
    ∀ ts : List Text,
      sortDescending ts = ts.mergeSort fun a b => (compare b.utf16Bytes a.utf16Bytes).isLE := by
  refine ⟨fun a b => compare_bytesOfUnits lt_of_mem_units lt_of_mem_units, ?_, ?_, ?_⟩
  · intro a b
    rw [utf16Bytes_eq_iff, units_eq_iff]
  · intro a ha b hb h
    exact eq_of_units_eq ha hb (utf16Bytes_eq_iff.mp h)
  · intro ts
    have horder : unitsGe = fun a b => (compare b.utf16Bytes a.utf16Bytes).isLE := by
      funext a b
      rw [unitsGe, unitsLe_eq_isLE]
    rw [sortDescending_eq_mergeSort, horder]

-- a code point beyond `0xFFFF` comes before one below it that is no surrogate and has a larger code unit
example : compare (utf16Bytes [⟨0x1F600, by decide⟩]) (utf16Bytes [⟨0xFFFD, by decide⟩]) = .lt := by decide

end Phrasebook.Text
