import Phrasebook.Marker
import Phrasebook.Placeholder
import Phrasebook.Proofs.Payload
import Phrasebook.Proofs.Traversal

/-!
# Phrasebook — what the arguments of a marked call give

Whether the message of a marked call can be translated is decided by the first argument alone: it has to
be a literal text. Three things could spoil this. A literal could have a value that looks like a pair of
texts: lowering gives literals only values without items. The second argument could make a payload out of
a first one that is none: a pair needs two texts. And decoding placeholders could make a payload valid
that was not, or the other way round: it maps texts to texts and leaves everything else alone.

Main results:

* `Script.Lower.scalarLiterals_of_lower` — the literals of a kept tree have values without items;
* `Marker.payload_translatable_iff` — the first argument decides;
* `Message.decoded_translatable`, `Message.decoded_of_payload` — what decoding does to payloads.
-/

namespace Phrasebook

namespace Script

/-! ## Literals of kept trees -/

/-- A node is no literal whose value has items. -/
def Node.IsScalar (n : Node) : Prop := ∀ line value, n = .literal line value → value.isScalar = true

/-- The literals of a tree have values without items. -/
def Node.ScalarLiterals (n : Node) : Prop := ∀ s ∈ n.preorder, s.IsScalar

theorem Node.scalarLiterals_of_children {n : Node} (hself : n.IsScalar)
    (hchildren : ∀ c ∈ n.children, c.ScalarLiterals) : n.ScalarLiterals := by
  intro s hs
  rw [preorder_eq, preorderAll_eq_flatMap] at hs
  rcases List.mem_cons.mp hs with rfl | hbelow
  · exact hself
  · obtain ⟨c, hc, hs⟩ := List.mem_flatMap.mp hbelow
    exact hchildren c hc s hs

namespace Lower

/-- **Literals are scalars.** No literal of a kept tree has a tuple or a list as its value. -/
theorem scalarLiterals_of_lower {t : Tree} {n : Node} (h : lower t = .ok n) : n.ScalarLiterals := by
  refine lower_induction (motive := fun _ n => n.ScalarLiterals) ?_ h
  intro t parts n hparts hbuild
  have hscalar : ∀ m ∈ parts, m.ScalarLiterals := by
    clear hbuild
    generalize (plan t).pending = pending at hparts
    induction hparts with
    | nil => simp
    | cons hfirst _ ih => exact List.forall_mem_cons.mpr ⟨hfirst.2, ih⟩
  -- the kind of node decides: literals are checked, all others pass on what holds of their parts
  have hbuilt := built hparts.length_eq
  rw [hbuild] at hbuilt
  generalize hresult : Except.ok n = result at hbuilt
  have hno : ∀ c ∈ ([] : List Node), c.ScalarLiterals := fun c hc => by cases hc
  cases hbuilt with
  | other =>
    cases hresult
    exact Node.scalarLiterals_of_children (fun _ _ hliteral => by cases hliteral) hscalar
  | name name =>
    cases hresult
    exact Node.scalarLiterals_of_children (fun _ _ hliteral => by cases hliteral) hno
  | value value hvalue =>
    cases hresult
    refine Node.scalarLiterals_of_children ?_ hno
    intro line value' hliteral
    cases hliteral
    exact hvalue
  | quoted _ =>
    cases hvalue : Escape.unescape (Text.ofChars (t.spelling.drop 1).dropLast) with
    | error failure =>
      rw [hvalue] at hresult
      cases hresult
    | ok value =>
      rw [hvalue] at hresult
      cases hresult
      refine Node.scalarLiterals_of_children ?_ hno
      intro line value' hliteral
      cases hliteral
      rfl
  | single node =>
    cases hresult
    exact hscalar n List.mem_cons_self
  | member node property =>
    cases hresult
    exact Node.scalarLiterals_of_children (fun _ _ hliteral => by cases hliteral) hscalar
  | call node nodes comments =>
    cases hresult
    exact Node.scalarLiterals_of_children (fun _ _ hliteral => by cases hliteral) hscalar

end Lower

end Script

/-! ## Payloads -/

namespace Marker

open Script (Node)

@[simp] theorem value_eq_text_iff {n : Node} {t : Text} : value n = .text t ↔ text? n = some t := by
  cases n with
  | literal line v => cases v <;> simp [value, text?, literal?, Value.text?]
  | _ => simp [value, text?, literal?]

/-- A plain argument is never read as a tuple: tuples are what a whole argument list becomes. -/
theorem value_ne_tuple {n : Node} (h : n.IsScalar) (items : List Value) :
    value n ≠ .tuple items := by
  intro hvalue
  -- only a literal has a value other than null
  cases n with
  | literal line v =>
    have hv : v = .tuple items := hvalue
    have hscalar := h line v rfl
    rw [hv] at hscalar
    cases hscalar
  | _ => cases hvalue

/-- A plain argument can be translated by itself exactly if it is a text. -/
theorem value_translatable_iff {n : Node} (h : n.IsScalar) :
    (value n).Translatable ↔ (text? n).isSome = true := by
  rw [Option.isSome_iff_exists]
  constructor
  · intro htranslatable
    cases hvalue : value n with
    | text t => exact ⟨t, value_eq_text_iff.mp hvalue⟩
    | tuple items => exact absurd hvalue (value_ne_tuple h items)
    | _ =>
      rw [hvalue] at htranslatable
      cases htranslatable
  · rintro ⟨t, ht⟩
    rw [value_eq_text_iff.mpr ht]
    exact .singular t

/-- **The first argument decides** whether the payload of a call can be translated. -/
theorem payload_translatable_iff {first : Node} (h : first.IsScalar) (rest : List Node) :
    (payload (first :: rest)).Translatable ↔ (text? first).isSome = true := by
  -- whatever follows, the first argument stays the one text that has to be there
  cases rest with
  | nil => exact value_translatable_iff h
  | cons second others =>
    rw [payload]
    cases text? second with
    | none => exact value_translatable_iff h
    | some plural =>
      rw [Option.isSome_iff_exists]
      constructor
      · intro htranslatable
        -- a plural has an identity only where its first part is a text
        generalize hvalue : value first = v at htranslatable
        cases htranslatable with
        | plural one many => exact ⟨one, value_eq_text_iff.mp hvalue⟩
      · rintro ⟨t, ht⟩
        rw [value_eq_text_iff.mpr ht]
        exact .plural t plural

end Marker

/-! ## Decoded payloads -/

namespace Message

theorem decoded_translatable {m : Message} (h : m.payload.Translatable) :
    m.decoded.payload.Translatable := by
  obtain ⟨location, comments, payload, origin⟩ := m
  cases h with
  | singular t => exact .singular _
  | plural one many => exact .plural _ _

/-- Only texts and tuples of texts are decoded. -/
theorem decoded_eq_self {m : Message} (htext : ∀ t, m.payload ≠ .text t)
    (htuple : ∀ items, m.payload = .tuple items → Placeholder.texts? items = none) :
    m.decoded = m := by
  unfold decoded
  split
  · next t hpayload => exact absurd hpayload (htext t)
  · next items hpayload => rw [htuple items hpayload]
  · rfl

/-- **Decoding makes no payload valid.** A message whose payload comes from arguments and cannot be
translated is left as it is. -/
theorem decoded_of_payload {m : Message} {first : Script.Node} {rest : List Script.Node}
    (hscalar : first.IsScalar) (hpayload : m.payload = Marker.payload (first :: rest))
    (h : Marker.text? first = none) : m.decoded = m := by
  have hnoText : ∀ t, Marker.value first ≠ .text t := by
    intro t ht
    rw [Marker.value_eq_text_iff, h] at ht
    cases ht
  have hnoTuple := Marker.value_ne_tuple hscalar
  -- a second argument makes a pair, but no text out of the first one
  have hcases : m.payload = Marker.value first ∨
      ∃ plural, m.payload = .tuple [Marker.value first, .text plural] := by
    rw [hpayload]
    unfold Marker.payload
    split
    · next hnil => cases hnil
    · next hone =>
      cases hone
      exact .inl rfl
    · next hmore =>
      cases hmore
      split
      · next plural _ => exact .inr ⟨plural, rfl⟩
      · exact .inl rfl
  rcases hcases with hvalue | ⟨plural, htuple⟩
  · rw [← hvalue] at hnoText hnoTuple
    exact decoded_eq_self hnoText fun items hitems => absurd hitems (hnoTuple items)
  · refine decoded_eq_self (fun t ht => ?_) (fun items hitems => ?_)
    · rw [htuple] at ht
      cases ht
    · rw [htuple] at hitems
      cases hitems
      -- the first item is no text
      have hfirst : (Marker.value first).text? = none := by
        cases hvalue : Marker.value first with
        | text t => exact absurd hvalue (hnoText t)
        | _ => rfl
      rw [Placeholder.texts?, List.mapM_cons, hfirst]
      rfl

end Message

end Phrasebook
