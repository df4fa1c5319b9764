import Phrasebook.Template

/-!
# Phrasebook — payloads that can be translated

A payload can be translated if it is a text or a pair of texts. `Value.Translatable` says so once, and
the functions that look at a payload are characterised by it: such a payload has an identity, which is
the key of its message, and lines in a template; every other payload has neither.

An error shows a payload that cannot be translated, unless an integer in it has too many digits.

Main results:

* `Value.identity?_isSome_iff`, `Template.body?_isSome_iff` — what has an identity, and lines;
* `Value.show?_eq_none_iff` — what cannot be shown.
-/

namespace Phrasebook

namespace Value

/-- A text, or a pair of texts for singular and plural. -/
inductive Translatable : Value → Prop
  | singular (t : Text) : Translatable (.text t)
  | plural (one many : Text) : Translatable (.tuple [.text one, .text many])

theorem plural?_eq_some_iff {v : Value} {one many : Text} :
    v.plural? = some (one, many) ↔ v = .tuple [.text one, .text many] := by
  constructor
  · intro h
    unfold plural? at h
    split at h
    · simp only [Option.some.injEq, Prod.mk.injEq] at h
      rw [h.1, h.2]
    · cases h
  · intro h
    rw [h]
    rfl

/-- A value has an identity exactly if it can be translated. -/
@[simp] theorem identity?_isSome_iff {v : Value} : v.identity?.isSome = true ↔ v.Translatable := by
  constructor
  · intro h
    cases v with
    | text t => exact .singular t
    | tuple items =>
      simp only [identity?, Option.isSome_map, Option.isSome_iff_exists] at h
      obtain ⟨⟨one, many⟩, hplural⟩ := h
      rw [plural?_eq_some_iff] at hplural
      rw [hplural]
      exact .plural one many
    | _ => cases h
  · intro h
    cases h with
    | singular t => rfl
    | plural one many => rfl

end Value

theorem Template.body?_isSome_iff {v : Value} : (body? v).isSome = true ↔ v.Translatable := by
  rw [← Value.identity?_isSome_iff]
  cases v with
  | text t => rfl
  | tuple items => simp only [body?, Value.identity?, Option.isSome_map]
  | _ => rfl

namespace Value

/-! ## Values that cannot be shown -/

/-- An integer whose decimal has too many digits. -/
def isLong (n : Int) : Bool := Numeral.maxDigits < (Nat.toDigits 10 n.natAbs).length

/-- A value holds an integer whose decimal has too many digits. -/
inductive HoldsLong : Value → Prop
  | int (n : Int) (h : isLong n = true) : HoldsLong (.int n)
  | tuple (items : List Value) (v : Value) (hmem : v ∈ items) (h : HoldsLong v) :
      HoldsLong (.tuple items)
  | list (items : List Value) (v : Value) (hmem : v ∈ items) (h : HoldsLong v) :
      HoldsLong (.list items)

theorem integerText?_eq_none_iff {n : Int} : integerText? n = none ↔ isLong n = true := by
  simp [integerText?, isLong]

/-- A tuple can be shown if all its items can. -/
theorem showAll?_eq_none_iff {items : List Value} :
    showAll? items = none ↔ ∃ v ∈ items, v.show? = none := by
  induction items with
  | nil => simp [showAll?]
  | cons item rest ih =>
    rw [showAll?]
    cases hitem : item.show? with
    | none => simp [hitem]
    | some shown =>
      cases hrest : showAll? rest with
      | none =>
        -- a later item cannot be shown
        obtain ⟨v, hv, hnone⟩ := ih.mp hrest
        simp only [Option.bind_eq_bind, Option.bind_some, Option.bind_none, true_iff]
        exact ⟨v, List.mem_cons_of_mem _ hv, hnone⟩
      | some others =>
        -- the first item is shown, and so are all others
        have hall : ∀ v ∈ rest, v.show? ≠ none := by
          intro v hv hnone
          have := ih.mpr ⟨v, hv, hnone⟩
          rw [hrest] at this
          cases this
        simp only [Option.bind_eq_bind, Option.bind_some, Option.pure_def, reduceCtorEq, false_iff]
        rintro ⟨v, hv, hnone⟩
        rcases List.mem_cons.mp hv with rfl | hv
        · rw [hitem] at hnone
          cases hnone
        · exact hall v hv hnone

theorem show?_tuple_eq_none_iff {items : List Value} :
    (tuple items).show? = none ↔ showAll? items = none := by
  rw [show?]
  cases showAll? items <;> simp

theorem show?_list_eq_none_iff {items : List Value} :
    (list items).show? = none ↔ showAll? items = none := by
  rw [show?]
  cases showAll? items <;> simp

/-- A value that is not shown leads down to an integer of too many digits. -/
theorem holdsLong_of_show?_eq_none : (v : Value) → v.show? = none → v.HoldsLong
  | .null, h => by cases h
  | .bool _, h => by cases h
  | .int n, h => .int n (integerText?_eq_none_iff.mp h)
  | .float _, h => by cases h
  | .text _, h => by cases h
  | .tuple items, h => by
    obtain ⟨v, hv, hnone⟩ := showAll?_eq_none_iff.mp (show?_tuple_eq_none_iff.mp h)
    have hsmaller : sizeOf v < sizeOf items := List.sizeOf_lt_of_mem hv
    exact .tuple items v hv (holdsLong_of_show?_eq_none v hnone)
  | .list items, h => by
    obtain ⟨v, hv, hnone⟩ := showAll?_eq_none_iff.mp (show?_list_eq_none_iff.mp h)
    have hsmaller : sizeOf v < sizeOf items := List.sizeOf_lt_of_mem hv
    exact .list items v hv (holdsLong_of_show?_eq_none v hnone)

/-- **What cannot be shown.** A value is shown unless it holds an integer of too many digits. -/
theorem show?_eq_none_iff (v : Value) : v.show? = none ↔ v.HoldsLong := by
  refine ⟨holdsLong_of_show?_eq_none v, ?_⟩
  intro h
  induction h with
  | int n hlong => exact integerText?_eq_none_iff.mpr hlong
  | tuple items v hmem _ ih =>
    rw [show?_tuple_eq_none_iff, showAll?_eq_none_iff]
    exact ⟨v, hmem, ih⟩
  | list items v hmem _ ih =>
    rw [show?_list_eq_none_iff, showAll?_eq_none_iff]
    exact ⟨v, hmem, ih⟩

end Value

end Phrasebook
