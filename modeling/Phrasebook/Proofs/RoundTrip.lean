import Phrasebook.Proofs.JsonStrings
import Phrasebook.Proofs.Provenance

/-!
# Phrasebook — strings that are read back

A quoted string of a template can be read in two ways: like the body of a string literal of a script, and
as JSON. Both give back the text with its split pairs joined. For the texts that an extraction writes this
is the text itself: they are values of string literals with their placeholders decoded, and such texts
have no split pairs.

* `Extraction.pairFree_payload` — the texts in a catalog have no split pairs;
* `Template.quote_read_back` — both readings of a quoted string.
-/

namespace Phrasebook

/-- A text that a value holds at some depth. -/
inductive Value.HasText (t : Text) : Value → Prop
  | text : HasText t (.text t)
  | tuple {items : List Value} {v : Value} (hmem : v ∈ items) (h : HasText t v) : HasText t (.tuple items)
  | list {items : List Value} {v : Value} (hmem : v ∈ items) (h : HasText t v) : HasText t (.list items)

namespace Value

/-- All texts of a value are pair-free. -/
def PairFree (v : Value) : Prop := ∀ t, v.HasText t → t.PairFree

theorem pairFree_text {t : Text} (h : t.PairFree) : (Value.text t).PairFree := by
  intro u hu
  cases hu
  exact h

theorem pairFree_tuple {items : List Value} (h : ∀ v ∈ items, v.PairFree) :
    (Value.tuple items).PairFree := by
  intro u hu
  cases hu with
  | tuple hmem hu => exact h _ hmem u hu

theorem pairFree_of_scalar {v : Value} (hscalar : v.isScalar = true) (hv : v.text? = none) :
    v.PairFree := by
  intro t ht
  cases ht with
  | text => cases hv
  | tuple => cases hscalar
  | list => cases hscalar

end Value

/-! ## From literals to payloads -/

namespace Marker

open Script (Node)

theorem pairFree_value {n : Node} (h : Script.Lower.Made n) : (value n).PairFree := by
  cases h with
  | value line v hscalar hv => exact Value.pairFree_of_scalar hscalar hv
  | text line t body ht => exact Value.pairFree_text (Escape.pairFree_of_unescape ht)
  | _ => exact Value.pairFree_of_scalar rfl rfl

/-- The payload of a call holds values of literals, none of which has a split pair. -/
theorem pairFree_payload {arguments : List Node} (h : ∀ a ∈ arguments, Script.Lower.Made a) :
    (payload arguments).PairFree := by
  unfold payload
  split
  · exact Value.pairFree_of_scalar rfl rfl
  · next first => exact pairFree_value (h first List.mem_cons_self)
  · next first second others =>
    have hfirst := pairFree_value (h first List.mem_cons_self)
    split
    · next plural hplural =>
      have hsecond := pairFree_value (h second (List.mem_cons_of_mem _ List.mem_cons_self))
      rw [value_eq_text_iff.mpr hplural] at hsecond
      refine Value.pairFree_tuple (List.forall_mem_cons.mpr ⟨hfirst, ?_⟩)
      exact List.forall_mem_singleton.mpr hsecond
    · exact hfirst

end Marker

namespace Placeholder

theorem pairFree_decodeAll {ts : List Text} (h : ∀ t ∈ ts, t.PairFree) (comments : List Text) :
    ∀ t ∈ (decodeAll ts comments).1, t.PairFree := by
  induction ts generalizing comments with
  | nil => simp [decodeAll]
  | cons t ts ih =>
    obtain ⟨hfirst, hothers⟩ := List.forall_mem_cons.mp h
    exact List.forall_mem_cons.mpr ⟨pairFree_decode hfirst comments, ih hothers _⟩

/-- The texts that were found in a list of values are among these values. -/
theorem mem_of_texts? {items : List Value} {ts : List Text} (h : texts? items = some ts) :
    ∀ t ∈ ts, .text t ∈ items := by
  induction items generalizing ts with
  | nil =>
    cases h
    simp
  | cons item items ih =>
    rw [texts?, List.mapM_cons, Option.bind_eq_bind, Option.bind_eq_some_iff] at h
    obtain ⟨first, hfirst, h⟩ := h
    rw [Option.bind_eq_bind, Option.bind_eq_some_iff] at h
    obtain ⟨others, hothers, h⟩ := h
    cases h
    have hitem : item = .text first := by
      cases item with
      | text t =>
        cases hfirst
        rfl
      | _ => cases hfirst
    rw [hitem]
    exact List.forall_mem_cons.mpr
      ⟨List.mem_cons_self, fun t ht => List.mem_cons_of_mem _ (ih hothers t ht)⟩

end Placeholder

/-- Decoding the placeholders of a message keeps its payload without split pairs, be it one text or a tuple of
texts; any other payload stays as it is. -/
theorem Message.pairFree_decoded {m : Message} (h : m.payload.PairFree) : m.decoded.payload.PairFree := by
  unfold decoded
  split
  · next t ht =>
    rw [ht] at h
    exact Value.pairFree_text (Placeholder.pairFree_decode (h t .text) m.comments)
  · next items hitems =>
    split
    · next ts hts =>
      rw [hitems] at h
      have hfree : ∀ t ∈ ts, t.PairFree :=
        fun t ht => h t (.tuple (Placeholder.mem_of_texts? hts t ht) .text)
      apply Value.pairFree_tuple
      intro v hv
      obtain ⟨t, ht, rfl⟩ := List.mem_map.mp hv
      exact Value.pairFree_text (Placeholder.pairFree_decodeAll hfree m.comments t ht)
    · exact h
  · exact h

/-- **The texts in a catalog** have no split pairs. -/
theorem Extraction.pairFree_payload {x : Extraction} {disk : Disk} {depth : Nat} {path : Text} :
    ∀ e ∈ (x.run disk depth path).catalog.entries, e.payload.PairFree := by
  rw [catalog_run]
  refine forall_payloads_collect fun file _ s hs => ?_
  obtain ⟨-, hmade⟩ := made_of_mem_calls hs
  exact Message.pairFree_decoded (Marker.pairFree_payload hmade.arguments)

/-! ## Reading back -/

namespace Template

/-- The pieces between the quotes give back the text, with its pairs joined. -/
theorem unescape_quoted (s : Text) : Escape.unescape (s.flatMap quotedCodePoint) = .ok s.joinPairs := by
  rw [Escape.unescape, values_pieces_quoted]
  rfl

/-- **Quoted strings are read back.** A quoted string stands between double quotes. What stands between
them, read like the body of a string literal, and the whole of it, read as JSON, are both the text in
which every high surrogate directly before a low one is joined with it: the one text with the same code
units that has no such pair. The value of a string literal, with its placeholders decoded, has no such
pair; hence every text in the catalog of an extraction is read back as it is, in both ways. -/
theorem quote_read_back :
    (∀ s : Text, ∃ inside, quote s = .ofChar '\x22' :: (inside ++ [.ofChar '\x22']) ∧
      Escape.unescape inside = .ok s.joinPairs ∧ Json.string? (quote s) = some s.joinPairs ∧
      ∀ joined : Text, joined = s.joinPairs ↔ joined.units = s.units ∧ joined.PairFree) ∧
    (∀ (body value : Text) (comments : List Text), Escape.unescape body = .ok value →
      (Placeholder.decode value comments).1.PairFree) ∧
    ∀ (x : Extraction) (disk : Disk) (depth : Nat) (path : Text),
      ∀ e ∈ (x.run disk depth path).catalog.entries, ∀ s, e.payload.HasText s →
        s.PairFree ∧ Escape.unescape ((quote s).drop 1).dropLast = .ok s ∧
        Json.string? (quote s) = some s := by
  have hread : ∀ s, ∃ inside, quote s = .ofChar '\x22' :: (inside ++ [.ofChar '\x22']) ∧
      Escape.unescape inside = .ok s.joinPairs ∧ Json.string? (quote s) = some s.joinPairs :=
    fun s => ⟨_, rfl, unescape_quoted s, Json.string?_quote s⟩
  refine ⟨?_, ?_, ?_⟩
  · intro s
    obtain ⟨inside, hquote, hunescape, hjson⟩ := hread s
    exact ⟨inside, hquote, hunescape, hjson, fun _ => Text.joinPairs_iff⟩
  · intro body value comments h
    exact Placeholder.pairFree_decode (Escape.pairFree_of_unescape h) comments
  -- a text in the catalog has no split pair, so that joining the pairs changes nothing
  · intro x disk depth path e he s hs
    have hfree := Extraction.pairFree_payload e he s hs
    obtain ⟨inside, hquote, hunescape, hjson⟩ := hread s
    rw [Text.joinPairs_of_pairFree hfree] at hunescape hjson
    refine ⟨hfree, ?_, hjson⟩
    rw [hquote, List.drop_succ_cons, List.drop_zero, List.dropLast_concat]
    exact hunescape

/-- A script that spells one code point by the escapes of its two surrogates. -/
def pairScript : FileSystem where
  items := [(["a.js"], .file ("__('\\ud83d\\ude00')".toList.flatMap Utf8.encodeChar))]

def pairEntries : List Entry :=
  (Extraction.run { markers := [["__"]] } pairScript.disk (Walk.enough pairScript) "a.js").catalog.entries

/-- A literal with the escapes of both halves of a pair: its value is one character, and that is what both
readers find in the quoted string. -/
theorem quote_read_back_pairScript :
    Escape.unescape "\\ud83d\\ude00" = .ok ("😀" : Text) ∧
    (Placeholder.decode "😀" []).1.PairFree ∧
    ∃ e ∈ pairEntries, e.payload.HasText "😀" ∧ ("😀" : Text).PairFree ∧
      Escape.unescape ((quote "😀").drop 1).dropLast = .ok "😀" ∧ Json.string? (quote "😀") = some "😀" := by
  have hvalue : Escape.unescape "\\ud83d\\ude00" = .ok ("😀" : Text) := rfl
  -- the only entry of the catalog holds this character
  have htexts : pairEntries.map (fun e => e.payload.text?) = [some ("😀" : Text)] := by decide +kernel
  obtain ⟨e, hentries, hpayload⟩ := List.map_eq_singleton_iff.mp htexts
  have he : e ∈ pairEntries := by
    rw [hentries]
    exact List.mem_singleton_self e
  have htext : e.payload.HasText "😀" := by
    cases hp : e.payload with
    | text t =>
      rw [hp] at hpayload
      cases hpayload
      exact .text
    | _ =>
      rw [hp] at hpayload
      cases hpayload
  refine ⟨hvalue, quote_read_back.2.1 _ _ [] hvalue, e, he, htext, ?_⟩
  unfold pairEntries at he
  exact quote_read_back.2.2 { markers := [["__"]] } pairScript.disk (Walk.enough pairScript) "a.js" e he _ htext

end Template

end Phrasebook
