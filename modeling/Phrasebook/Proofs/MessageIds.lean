import Mathlib.Data.List.Nodup
import Phrasebook.Proofs.Outcome
import Phrasebook.Proofs.Reading

/-!
# Phrasebook — the strings that identify blocks

A reader of templates identifies a block by its `msgid`. A catalog merges messages by another text: a
singular one by itself, a pair by both texts with a bar between them. So the strings of the blocks, taken
together, are never the same in two blocks, and two singular blocks never share their `msgid`. But a pair
may share its `msgid` with a singular text, or with another pair, and a message may be the empty text, which
is the `msgid` of the header.

Main results:

* `Template.Strings`, `Template.Strings.Of.block_eq` — the strings of a block;
* `Catalog.Holds.nodup_strings` — no two blocks have the same strings;
* `Template.Strings.nodup_msgids_iff` — when all `msgid`s differ;
* `Catalog.strings_of_written` — the strings in the template of a catalog;
* `Catalog.msgids_sharedTexts` — blocks that share a `msgid`.
-/

namespace Phrasebook

/-- The text that a payload starts with, which becomes the `msgid` of its block. -/
def Value.msgid? (payload : Value) : Option Text :=
  match payload with
  | .text t => some t
  | _ => payload.plural?.map Prod.fst

namespace Template

/-! ## The strings of one block -/

/-- The strings of a block. -/
structure Strings where
  msgid : Text
  plural : Option Text
deriving DecidableEq

namespace Strings

/-- The payload with these strings. -/
def payload : Strings → Value
  | { msgid, plural := none } => .text msgid
  | { msgid, plural := some plural } => .tuple [.text msgid, .text plural]

/-- The text by which messages with these strings are merged. -/
def identity : Strings → Text
  | { msgid, plural := none } => msgid
  | { msgid, plural := some plural } => msgid ++ ("|" : Text) ++ plural

/-- The lines of a block with these strings. -/
def lines : Strings → List Text
  | { msgid, plural := none } => [("msgid " : Text) ++ quote msgid, "msgstr \"\""]
  | { msgid, plural := some plural } =>
    [("msgid " : Text) ++ quote msgid, ("msgid_plural " : Text) ++ quote plural, "msgstr[0] \"\"",
      "msgstr[1] \"\""]

theorem exists_of_translatable {v : Value} (h : v.Translatable) : ∃ s : Strings, v = s.payload := by
  cases h with
  | singular t => exact ⟨{ msgid := t, plural := none }, rfl⟩
  | plural one many => exact ⟨{ msgid := one, plural := some many }, rfl⟩

theorem identity?_payload (s : Strings) : s.payload.identity? = some s.identity := by
  obtain ⟨msgid, _ | plural⟩ := s
  · rfl
  · rfl

theorem msgid?_payload (s : Strings) : s.payload.msgid? = some s.msgid := by
  obtain ⟨msgid, _ | plural⟩ := s
  · rfl
  · rfl

theorem payload_injective : Function.Injective payload := by
  rintro ⟨msgid, _ | plural⟩ ⟨msgid', _ | plural'⟩ h
  · cases h
    rfl
  · cases h
  · cases h
  · cases h
    rfl

theorem body?_payload (s : Strings) : body? s.payload = some s.lines := by
  obtain ⟨msgid, _ | plural⟩ := s
  · rfl
  · rfl

theorem translatable_payload (s : Strings) : s.payload.Translatable := by
  rw [← Value.identity?_isSome_iff, identity?_payload]
  rfl

/-- An entry with these strings, which are also what it is merged by. -/
structure Of (e : Entry) (s : Strings) : Prop where
  payload : e.payload = s.payload
  key     : e.key = .text s.identity

/-- The block of an entry: its comments, the lines of its strings, and an empty line. -/
theorem Of.block_eq {e : Entry} {s : Strings} (h : Of e s) :
    block e = .ok (joinLines (e.comments.map escapeSurrogates ++ s.lines ++ [[]])) := by
  have htranslatable : e.payload.Translatable := by
    rw [h.payload]
    exact s.translatable_payload
  rw [block_of_translatable htranslatable, entryLines, h.payload, body?_payload]
  rfl

/-- The keys of entries with these strings. -/
theorem map_key {es : List Entry} {ss : List Strings} (h : List.Forall₂ Of es ss) :
    es.map Entry.key = ss.map fun s => Key.text s.identity := by
  induction h with
  | nil => rfl
  | cons hfirst _ ih => rw [List.map_cons, List.map_cons, hfirst.key, ih]

/-- The payloads of entries with these strings. -/
theorem map_payload {es : List Entry} {ss : List Strings} (h : List.Forall₂ Of es ss) :
    es.map Entry.payload = ss.map payload := by
  induction h with
  | nil => rfl
  | cons hfirst _ ih => rw [List.map_cons, List.map_cons, hfirst.payload, ih]

/-- **When all `msgid`s differ**, that of a header included: different strings share a `msgid` only if one
of them has a plural. -/
theorem nodup_msgids_iff {ss : List Strings} (hss : ss.Nodup) :
    ([] :: ss.map msgid).Nodup ↔
      (∀ s ∈ ss, s.msgid ≠ []) ∧
      ∀ s ∈ ss, ∀ s' ∈ ss, s.plural ≠ none → s.msgid = s'.msgid → s = s' := by
  rw [List.nodup_cons, List.nodup_map_iff_inj_on hss]
  have hempty : [] ∉ ss.map msgid ↔ ∀ s ∈ ss, s.msgid ≠ [] := by
    simp only [List.mem_map, not_exists, not_and, ne_eq]
  rw [hempty]
  refine and_congr_right fun _ => ⟨fun h s hs s' hs' _ => h s hs s' hs', ?_⟩
  intro h s hs s' hs' hmsgid
  by_cases hplural : s.plural = none
  · by_cases hplural' : s'.plural = none
    · -- singular strings are their `msgid`
      obtain ⟨msgid, plural⟩ := s
      obtain ⟨msgid', plural'⟩ := s'
      subst hplural hplural' hmsgid
      rfl
    · exact (h s' hs' s hs hplural' hmsgid.symm).symm
  · exact h s hs s' hs' hplural hmsgid

end Strings

end Template

/-! ## The strings of a template -/

namespace Catalog

open Template (Strings)

/-- The entries of a catalog have the strings of messages that it holds. -/
theorem Holds.exists_strings {c : Catalog} {ms : List Message} (h : c.Holds ms)
    (hms : ∀ m ∈ ms, m.payload.Translatable) :
    ∃ ss, List.Forall₂ Strings.Of c.entries ss ∧ ∀ s ∈ ss, ∃ m ∈ ms, m.payload = s.payload := by
  have heach : ∀ e ∈ c.entries, ∃ s : Strings, Strings.Of e s ∧ ∃ m ∈ ms, m.payload = s.payload := by
    intro e he
    -- the strings are those of the first message with the key
    obtain ⟨first, -, -, hfirst, hkey, -, hpayload⟩ := Entry.exists_first (h.entry e he)
    obtain ⟨s, hs⟩ := Strings.exists_of_translatable (hms first hfirst)
    have hidentity : first.key = .text s.identity := by
      rw [Message.key, hs, Strings.identity?_payload]
    exact ⟨s, ⟨hpayload.trans hs, hkey.symm.trans hidentity⟩, first, hfirst, hs⟩
  generalize c.entries = es at heach ⊢
  induction es with
  | nil => exact ⟨[], .nil, List.forall_mem_nil _⟩
  | cons e es ih =>
    obtain ⟨⟨s, hs, hm⟩, hothers⟩ := List.forall_mem_cons.mp heach
    obtain ⟨ss, hss, hmss⟩ := ih hothers
    exact ⟨s :: ss, .cons hs hss, List.forall_mem_cons.mpr ⟨hm, hmss⟩⟩

/-- **No two entries have the same strings**, since no two have the same key. -/
theorem Holds.nodup_strings {c : Catalog} {ms : List Message} (h : c.Holds ms) {ss : List Strings}
    (hss : List.Forall₂ Strings.Of c.entries ss) : ss.Nodup := by
  refine List.Nodup.of_map (fun s => Key.text s.identity) ?_
  rw [← Strings.map_key hss]
  exact h.nodup_keys

/-- **The strings of a template.** Let messages that can all be translated be added to an empty catalog.
The header, which starts with an empty `msgid`, is followed by one block for each entry, made of its
comments and the lines of its strings. These are the strings of one of the messages, and no two blocks have
the same `msgid` and the same plural. All `msgid`s differ, that of the header included, exactly if none of
the others is empty and none that has a plural is also that of another block. So they differ if no message
starts with an empty text, and messages that start with the same text have the same payload. -/
theorem strings_of_written (ms : List Message) (hms : ∀ m ∈ ms, m.payload.Translatable) :
    ∃ ss : List Strings,
      (∃ more, Template.header = Template.joinLines ((("msgid " : Text) ++ Template.quote []) :: more)) ∧
      (∃ text, Template.IsBlocks (empty.addAll ms).entries text ∧
        Template.write (empty.addAll ms).entries = { text, error := none }) ∧
      List.Forall₂
        (fun e s => Template.block e =
          .ok (Template.joinLines (e.comments.map Template.escapeSurrogates ++ s.lines ++ [[]])))
        (empty.addAll ms).entries ss ∧
      (∀ s ∈ ss, ∃ m ∈ ms, m.payload = s.payload) ∧
      ss.Nodup ∧
      (([] :: ss.map Strings.msgid).Nodup ↔
        (∀ s ∈ ss, s.msgid ≠ []) ∧
        ∀ s ∈ ss, ∀ s' ∈ ss, s.plural ≠ none → s.msgid = s'.msgid → s = s') ∧
      ((∀ m ∈ ms, m.payload.msgid? ≠ some []) →
        (∀ m ∈ ms, ∀ m' ∈ ms, m.payload.msgid? = m'.payload.msgid? → m.payload = m'.payload) →
        ([] :: ss.map Strings.msgid).Nodup) := by
  have hholds := holds_addAll_empty ms
  -- the strings of the entries, each those of a message
  obtain ⟨ss, hss, hmessages⟩ := hholds.exists_strings hms
  have hnodup := hholds.nodup_strings hss
  have hmsgids := Strings.nodup_msgids_iff hnodup
  have hheader : Template.header =
      Template.joinLines ((("msgid " : Text) ++ Template.quote []) :: (Template.headerLines.drop 1 ++ [[]])) := by
    decide +kernel
  refine ⟨ss, ⟨_, hheader⟩, Template.write_of_holds hholds hms, hss.imp fun _ _ h => h.block_eq, hmessages,
    hnodup, hmsgids, ?_⟩
  intro hempty hsame
  -- for the last part, the condition on the strings is read off the messages
  rw [hmsgids]
  constructor
  · intro s hs hnil
    obtain ⟨m, hm, hpayload⟩ := hmessages s hs
    -- an empty msgid would be that of a message
    apply hempty m hm
    rw [hpayload, Strings.msgid?_payload, hnil]
  · intro s hs s' hs' _ hmsgid
    obtain ⟨m, hm, hpayload⟩ := hmessages s hs
    obtain ⟨m', hm', hpayload'⟩ := hmessages s' hs'
    -- strings with the same msgid come from messages with the same payload
    apply Strings.payload_injective
    rw [← hpayload, ← hpayload']
    apply hsame m hm m' hm'
    rw [hpayload, hpayload', Strings.msgid?_payload, Strings.msgid?_payload, hmsgid]

/-- A message with a payload, from one place. -/
def messageOf (payload : Value) : Message where
  location := "#: a.js:1"
  comments := []
  payload
  origin := "a.js"

/-- A text and a pair. -/
def textAndPair : List Message := [messageOf (.text "a"), messageOf (.tuple [.text "b", .text "c"])]

/-- A text and a pair with other texts: their msgids differ, also from the empty one of the header. -/
theorem strings_of_written_textAndPair :
    ∃ ss : List Strings,
      List.Forall₂
        (fun e s => Template.block e =
          .ok (Template.joinLines (e.comments.map Template.escapeSurrogates ++ s.lines ++ [[]])))
        (empty.addAll textAndPair).entries ss ∧
      ([] :: ss.map Strings.msgid).Nodup := by
  have hvalid : ∀ m ∈ textAndPair, m.payload.Translatable :=
    List.forall_mem_cons.mpr ⟨.singular _, List.forall_mem_cons.mpr ⟨.plural _ _, List.forall_mem_nil _⟩⟩
  obtain ⟨ss, -, -, hblocks, -, -, -, hnodup⟩ := strings_of_written textAndPair hvalid
  refine ⟨ss, hblocks, hnodup (by decide) ?_⟩
  -- two messages with one msgid are one of the two, taken twice
  intro m hm m' hm' hmsgid
  simp only [textAndPair, List.mem_cons, List.not_mem_nil, or_false] at hm hm'
  rcases hm with rfl | rfl <;> rcases hm' with rfl | rfl
  · rfl
  · exact absurd hmsgid (by decide)
  · exact absurd hmsgid (by decide)
  · rfl

/-- A text, a pair that starts with it, and the empty text. -/
def sharedTexts : List Message :=
  [messageOf (.text "a"), messageOf (.tuple [.text "a", .text "b"]), messageOf (.text [])]

/-- **Blocks that share a `msgid`**, with each other and with the header. -/
theorem msgids_sharedTexts :
    let msgids := (empty.addAll sharedTexts).entries.filterMap fun e => e.payload.msgid?
    (∀ m ∈ sharedTexts, m.payload.Translatable) ∧
    msgids = (["a", "a", []] : List Text) ∧ ¬ ([] :: msgids).Nodup ∧
    Template.header ++ (Template.write (empty.addAll sharedTexts).entries).text =
      Template.joinLines (Template.headerLines ++ [[],
        "#: a.js:1", "msgid \"a\"", "msgstr \"\"", [],
        "#: a.js:1", "msgid \"a\"", "msgid_plural \"b\"", "msgstr[0] \"\"", "msgstr[1] \"\"", [],
        "#: a.js:1", "msgid \"\"", "msgstr \"\"", []]) := by
  intro msgids
  have hmsgids : msgids = (["a", "a", []] : List Text) := by decide +kernel
  refine ⟨?_, hmsgids, ?_, by decide +kernel⟩
  · exact List.forall_mem_cons.mpr ⟨.singular _, List.forall_mem_cons.mpr ⟨.plural _ _,
      List.forall_mem_cons.mpr ⟨.singular _, List.forall_mem_nil _⟩⟩⟩
  · rw [hmsgids]
    decide

end Catalog

end Phrasebook
