import Phrasebook.Catalog

/-!
# Phrasebook — the descending order of comments

Comments of a merged entry stand in descending order of their code units. Different texts may have
the same units (a surrogate pair and the code point it stands for), so the order of texts is total
but not antisymmetric, and it matters that sorting is *stable*: texts with the same units keep the
order in which they came.

A stable sort is determined by two facts. Its result is `Descending`, and for every sequence of units
the texts that have it (`alike`) stand in the result as they stood before.

Main results:

* `Descending.eq_of_alike` — the two facts determine a list;
* `sortDescending_eq_mergeSort` — the sort of a catalog is the stable merge sort;
* `sortDescending_append_left` — sorting a part first changes nothing, so that a list that grows and
  is sorted each time ends as if it had been sorted once.
-/

namespace Phrasebook.Text

/-! ## The order of unit sequences -/

theorem unitListLe_refl (a : List Nat) : unitListLe a a = true := by
  induction a with
  | nil => rfl
  | cons u us ih => simp [unitListLe, ih]

/-- Of two lists of code units, one comes before the other or they are equal. -/
theorem unitListLe_total (a b : List Nat) : (unitListLe a b || unitListLe b a) = true := by
  induction a generalizing b with
  | nil => rfl
  | cons u us ih =>
    cases b with
    | nil => rfl
    | cons v vs =>
      have htail := ih vs
      simp only [unitListLe, Bool.or_eq_true, Bool.and_eq_true, decide_eq_true_eq, beq_iff_eq] at htail ⊢
      rcases Nat.lt_trichotomy u v with huv | huv | huv
      · exact Or.inl (Or.inl huv)
      · rcases htail with h | h
        · exact Or.inl (Or.inr ⟨huv, h⟩)
        · exact Or.inr (Or.inr ⟨huv.symm, h⟩)
      · exact Or.inr (Or.inl huv)

/-- Where both steps find a difference, the one found first decides. -/
theorem unitListLe_trans {a b c : List Nat} (hab : unitListLe a b = true)
    (hbc : unitListLe b c = true) : unitListLe a c = true := by
  induction a generalizing b c with
  | nil => rfl
  | cons u us ih =>
    cases b with
    | nil => simp [unitListLe] at hab
    | cons v vs =>
      cases c with
      | nil => simp [unitListLe] at hbc
      | cons w ws =>
        simp only [unitListLe, Bool.or_eq_true, Bool.and_eq_true, decide_eq_true_eq,
          beq_iff_eq] at hab hbc ⊢
        -- the first unit decides, unless it is the same in both
        rcases hab with huv | ⟨rfl, hab⟩
        · rcases hbc with hvw | ⟨rfl, -⟩
          · exact Or.inl (Nat.lt_trans huv hvw)
          · exact Or.inl huv
        · rcases hbc with huw | ⟨rfl, hbc⟩
          · exact Or.inl huw
          · exact Or.inr ⟨rfl, ih hab hbc⟩

/-- Two texts that come before each other have the same code units. -/
theorem unitListLe_antisymm {a b : List Nat} (hab : unitListLe a b = true)
    (hba : unitListLe b a = true) : a = b := by
  induction a generalizing b with
  | nil =>
    cases b with
    | nil => rfl
    | cons v vs => simp [unitListLe] at hba
  | cons u us ih =>
    cases b with
    | nil => simp [unitListLe] at hab
    | cons v vs =>
      simp only [unitListLe, Bool.or_eq_true, Bool.and_eq_true, decide_eq_true_eq,
        beq_iff_eq] at hab hba
      -- a unit that is smaller one way cannot be smaller the other way
      rcases hab with huv | ⟨rfl, hab⟩
      · rcases hba with hvu | ⟨hvu, -⟩ <;> omega
      · rcases hba with huu | ⟨-, hba⟩
        · omega
        · rw [ih hab hba]

/-! ## Descending lists -/

/-- The order in which a later text stands behind an earlier one. -/
def unitsGe (a b : Text) : Bool := b.unitsLe a

theorem unitsGe_total (a b : Text) : (unitsGe a b || unitsGe b a) = true :=
  unitListLe_total b.units a.units

theorem unitsGe_trans (a b c : Text) (hab : unitsGe a b = true) (hbc : unitsGe b c = true) :
    unitsGe a c = true :=
  unitListLe_trans hbc hab

/-- Every text of a list comes before all smaller ones. -/
def Descending (ts : List Text) : Prop := ts.Pairwise fun a b => unitsGe a b = true

/-- The texts of a list that have the given code units, in their order. -/
def alike (units : List Nat) (ts : List Text) : List Text := ts.filter (·.units == units)

theorem alike_append (units : List Nat) (xs ys : List Text) :
    alike units (xs ++ ys) = alike units xs ++ alike units ys :=
  List.filter_append ..

/-- The head of a list occurs in every list that holds the same texts of each kind. -/
private theorem mem_of_alike_cons {x : Text} {xs ys : List Text}
    (h : ∀ units, alike units (x :: xs) = alike units ys) : x ∈ ys := by
  have hx : x ∈ alike x.units (x :: xs) := by simp [alike]
  rw [h] at hx
  exact (List.mem_filter.mp hx).1

/-- **Uniqueness of stable sorting.** Two descending lists that hold the same texts of every kind in
the same order are equal. -/
theorem Descending.eq_of_alike {xs ys : List Text} (hxs : Descending xs) (hys : Descending ys)
    (h : ∀ units, alike units xs = alike units ys) : xs = ys := by
  induction xs generalizing ys with
  | nil =>
    cases ys with
    | nil => rfl
    | cons y ys =>
      have hy := mem_of_alike_cons fun units => (h units).symm
      cases hy
  | cons x xs ih =>
    cases ys with
    | nil =>
      have hx := mem_of_alike_cons h
      cases hx
    | cons y ys =>
      obtain ⟨hx, hxs'⟩ := List.pairwise_cons.mp hxs
      obtain ⟨hy, hys'⟩ := List.pairwise_cons.mp hys
      -- each head occurs in the other list, so neither is smaller
      have hyx : unitsGe y x = true := by
        rcases List.mem_cons.mp (mem_of_alike_cons h) with rfl | hmem
        · exact unitListLe_refl _
        · exact hy x hmem
      have hxy : unitsGe x y = true := by
        rcases List.mem_cons.mp (mem_of_alike_cons fun units => (h units).symm)
          with rfl | hmem
        · exact unitListLe_refl _
        · exact hx y hmem
      have hunits : x.units = y.units := unitListLe_antisymm hyx hxy
      -- both lead the texts of their kind
      have hheads := h x.units
      simp only [alike, List.filter_cons, beq_self_eq_true, if_true, hunits] at hheads
      obtain ⟨rfl, -⟩ := List.cons.inj hheads
      have htails : ∀ units, alike units xs = alike units ys := by
        intro units
        have hcons := h units
        simp only [alike, List.filter_cons] at hcons ⊢
        split at hcons
        · exact (List.cons.inj hcons).2
        · exact hcons
      rw [ih hxs' hys' htails]

/-! ## Sorting -/

theorem insertDescending_perm (t : Text) (ts : List Text) :
    (insertDescending t ts).Perm (t :: ts) := by
  induction ts with
  | nil => exact List.Perm.refl _
  | cons u us ih =>
    rw [insertDescending]
    split
    · exact List.Perm.refl _
    · exact (ih.cons u).trans (List.Perm.swap t u us)

/-- Insertion keeps the order. -/
theorem descending_insertDescending (t : Text) {ts : List Text} (h : Descending ts) :
    Descending (insertDescending t ts) := by
  induction ts with
  | nil => exact List.pairwise_singleton _ _
  | cons u us ih =>
    obtain ⟨hu, hus⟩ := List.pairwise_cons.mp h
    rw [insertDescending]
    split
    · next hle =>
      -- the text comes first: it is at least as large as the head, and so as all the rest
      refine List.pairwise_cons.mpr ⟨?_, h⟩
      intro v hv
      rcases List.mem_cons.mp hv with rfl | hv
      · exact hle
      · exact unitsGe_trans t u v hle (hu v hv)
    · next hle =>
      -- the head stays first: it is larger than the text, since any two texts compare
      refine List.pairwise_cons.mpr ⟨?_, ih hus⟩
      intro v hv
      rcases List.mem_cons.mp ((insertDescending_perm t us).mem_iff.mp hv) with rfl | hv
      · have htotal := unitsGe_total v u
        rw [Bool.or_eq_true] at htotal
        exact htotal.resolve_left hle
      · exact hu v hv

/-- A text is put before the texts of its own kind, and passes only texts of other kinds. -/
theorem alike_insertDescending (units : List Nat) (t : Text) (ts : List Text) :
    alike units (insertDescending t ts) = alike units (t :: ts) := by
  induction ts with
  | nil => rfl
  | cons u us ih =>
    rw [insertDescending]
    split
    · rfl
    · next hle =>
      -- a text that is passed is of another kind, since one of the same kind would stop it
      have hne : u.units ≠ t.units := by
        intro heq
        apply hle
        rw [unitsLe, heq]
        exact unitListLe_refl _
      simp only [alike, List.filter_cons] at ih ⊢
      rw [ih]
      -- only the texts of one kind are looked at
      by_cases ht : t.units = units
      · subst ht
        simp [hne]
      · simp [ht]

theorem descending_sortDescending (ts : List Text) : Descending (sortDescending ts) := by
  induction ts with
  | nil => exact List.Pairwise.nil
  | cons t ts ih => exact descending_insertDescending t ih

/-- **Stability.** Sorting leaves the texts of every kind in their order. -/
theorem alike_sortDescending (units : List Nat) (ts : List Text) :
    alike units (sortDescending ts) = alike units ts := by
  induction ts with
  | nil => rfl
  | cons t ts ih =>
    rw [sortDescending, alike_insertDescending]
    simp only [alike, List.filter_cons] at ih ⊢
    rw [ih]

/-- The merge sort of the library is stable in the same sense. -/
theorem alike_mergeSort (units : List Nat) (ts : List Text) :
    alike units (ts.mergeSort unitsGe) = alike units ts := by
  -- texts of one kind are in order as they stand
  have hkind : (alike units ts).Pairwise fun a b => unitsGe a b = true := by
    rw [List.pairwise_iff_forall_sublist]
    intro a b hab
    have ha : a ∈ alike units ts := hab.subset (by simp)
    have hb : b ∈ alike units ts := hab.subset (by simp)
    simp only [alike, List.mem_filter, beq_iff_eq] at ha hb
    rw [unitsGe, unitsLe, ha.2, hb.2]
    exact unitListLe_refl _
  -- so the merge sort leaves them in that order, perhaps with others between
  have hsub : (alike units ts).Sublist (ts.mergeSort unitsGe) :=
    List.sublist_mergeSort unitsGe_trans unitsGe_total hkind List.filter_sublist
  have hfilter : (alike units ts).Sublist (alike units (ts.mergeSort unitsGe)) := by
    have := hsub.filter (·.units == units)
    simpa only [alike, List.filter_filter, Bool.and_self] using this
  -- and it adds and drops none
  have hlength : (alike units ts).length = (alike units (ts.mergeSort unitsGe)).length :=
    ((List.mergeSort_perm ts unitsGe).filter _).length_eq.symm
  exact (hfilter.eq_of_length hlength).symm

/-- **The sort of a catalog is the stable merge sort in descending order.** -/
theorem sortDescending_eq_mergeSort (ts : List Text) :
    sortDescending ts = ts.mergeSort unitsGe := by
  apply (descending_sortDescending ts).eq_of_alike
    (List.pairwise_mergeSort unitsGe_trans unitsGe_total ts)
  intro units
  rw [alike_sortDescending, alike_mergeSort]

/-- **Sorting again.** What is sorted may have been sorted before in part. -/
theorem sortDescending_append_left (xs ys : List Text) :
    sortDescending (sortDescending xs ++ ys) = sortDescending (xs ++ ys) := by
  apply (descending_sortDescending _).eq_of_alike (descending_sortDescending _)
  intro units
  rw [alike_sortDescending, alike_sortDescending, alike_append, alike_append,
    alike_sortDescending]

end Phrasebook.Text
