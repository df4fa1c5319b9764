import Mathlib.Data.List.Dedup
import Phrasebook.Proofs.Lines
import Phrasebook.Proofs.Provenance

/-!
# Phrasebook — messages that cannot be translated

A message that cannot be translated has its place as key, so that each is reported by itself. The place is
the path of the source and the line of the call, and one line may hold several calls. So such messages are
kept apart from all messages that can be translated, and from each other unless they stand on the same line
of the same source: then the first of them takes in the others, which are never reported.

The place is read back from the key in two steps: the path is a part of the key, which leaves the decimal of
the line in the location, and a decimal has one number (`Text.ofNat_injective`).

Main results:

* `Key.ofPlace_injective` — different places have different keys;
* `Catalog.Holds.mem_untranslatable_keys` — the keys of entries that cannot be translated;
* `Catalog.untranslatable_entries` — there is one entry for each place, and when this is one for each
  message;
* `Catalog.untranslatable_entries_sameLine` — two calls on a line.
-/

namespace Phrasebook

open Extraction (Site)

/-! ## Keys of places -/

theorem Text.ofNat_injective : Function.Injective Text.ofNat := by
  intro m n h
  have hdigits : Nat.toDigits 10 m = Nat.toDigits 10 n :=
    List.map_injective_iff.mpr CodePoint.ofChar_injective h
  have hread := congrArg (fun digits => Nat.ofDigitChars 10 digits 0) hdigits
  simpa only [Nat.ofDigitChars_ten_toDigits] using hread

/-- The key for a line of a source. -/
def Key.ofPlace : Text × Nat → Key
  | (origin, line) => .place origin (Marker.location origin line)

theorem Key.ofPlace_injective : Function.Injective ofPlace := by
  rintro ⟨origin, line⟩ ⟨origin', line'⟩ h
  obtain ⟨rfl, hlocation⟩ := Key.place.inj h
  -- both locations start with the path, and end with the line
  have hline : line = line' := Text.ofNat_injective (List.append_cancel_left hlocation)
  rw [hline]

/-- The path of the source of a call, and its line. -/
def Extraction.Site.place (s : Site) : Text × Nat := (s.origin, s.call.line)

/-- Whether a payload can be translated is seen from its identity. -/
instance (v : Value) : Decidable v.Translatable := decidable_of_iff _ Value.identity?_isSome_iff

theorem Extraction.Site.key_message {s : Site} (h : ¬ s.message.payload.Translatable) :
    s.message.key = .ofPlace s.place := by
  rw [← Value.identity?_isSome_iff, Bool.not_eq_true, Option.isSome_eq_false_iff,
    Option.isNone_iff_eq_none] at h
  obtain ⟨horigin, hlocation⟩ := s.raw.place_decoded
  rw [Message.key, h]
  show Key.place s.raw.decoded.origin s.raw.decoded.location = _
  rw [horigin, hlocation]
  rfl

/-! ## Entries for places -/

namespace Catalog

/-- **Entries that cannot be translated** have the keys of the messages that cannot. -/
theorem Holds.mem_untranslatable_keys {c : Catalog} {ms : List Message} (h : c.Holds ms) (key : Key) :
    key ∈ (c.entries.filter fun e => ¬ e.payload.Translatable).map Entry.key ↔
      ∃ m ∈ ms, ¬ m.payload.Translatable ∧ m.key = key := by
  simp only [List.mem_map, List.mem_filter, decide_eq_true_eq]
  constructor
  · rintro ⟨e, ⟨he, hpayload⟩, rfl⟩
    obtain ⟨first, later, -, hfirst, hkey, -, hsame⟩ := Entry.exists_first (h.entry e he)
    rw [hsame] at hpayload
    exact ⟨first, hfirst, hpayload, hkey⟩
  · rintro ⟨m, hm, hpayload, rfl⟩
    have hkey : m.key ∈ c.entries.map Entry.key := by
      rw [h.keys, List.mem_eraseDups]
      exact List.mem_map_of_mem hm
    obtain ⟨e, he, hsame⟩ := List.mem_map.mp hkey
    refine ⟨e, ⟨he, ?_⟩, hsame⟩
    rw [Entry.translatable_iff_key (h.entry e he), hsame, Message.key_eq_text_iff]
    exact hpayload

/-- Entries that cannot be translated keep away from the messages that can. -/
theorem Holds.key_ne_of_untranslatable {c : Catalog} {ms : List Message} (h : c.Holds ms) {e : Entry}
    (he : e ∈ c.entries) (hpayload : ¬ e.payload.Translatable) {m : Message}
    (hm : m.payload.Translatable) : m.key ≠ e.key := by
  intro hsame
  obtain ⟨t, ht⟩ := Message.key_eq_text_iff.mpr hm
  exact hpayload ((Entry.translatable_iff_key (h.entry e he)).mpr ⟨t, hsame.symm.trans ht⟩)

/-- There is one entry for each place where a message stands that cannot be translated. -/
theorem untranslatable_keys (ss : List Site) :
    (((empty.addAll (ss.map Site.message)).entries.filter fun e => ¬ e.payload.Translatable).map
      Entry.key).Perm
      (((ss.filter fun s => ¬ s.message.payload.Translatable).map Site.place).dedup.map Key.ofPlace) := by
  have hholds := holds_addAll_empty (ss.map Site.message)
  refine (List.perm_ext_iff_of_nodup ?_ ?_).mpr fun key => ?_
  · exact hholds.nodup_keys.sublist (List.filter_sublist.map _)
  · exact (List.nodup_dedup _).map Key.ofPlace_injective
  · rw [hholds.mem_untranslatable_keys]
    simp only [List.mem_map, List.mem_dedup, List.mem_filter, decide_eq_true_eq]
    constructor
    · rintro ⟨-, ⟨s, hs, rfl⟩, hpayload, rfl⟩
      exact ⟨s.place, ⟨s, ⟨hs, hpayload⟩, rfl⟩, (Site.key_message hpayload).symm⟩
    · rintro ⟨-, ⟨s, ⟨hs, hpayload⟩, rfl⟩, rfl⟩
      exact ⟨s.message, ⟨s, hs, rfl⟩, hpayload, Site.key_message hpayload⟩

/-! ## Messages of sources -/

/-- A list has as many distinct members as members exactly if it has no repetition. -/
theorem length_dedup_eq_iff {α : Type} [DecidableEq α] {l : List α} :
    l.dedup.length = l.length ↔ l.Nodup := by
  rw [← List.dedup_eq_self]
  exact ⟨fun h => (List.dedup_sublist l).eq_of_length h, congrArg List.length⟩

end Catalog

/-- An extraction returns a message for some source. -/
def Extraction.Returned (m : Message) : Prop :=
  ∃ (x : Extraction) (disk : Disk) (path : Text) (found : List Message),
    (x.messages disk path).result = .ok found ∧ m ∈ found

/-- Messages that are returned are those of marked calls. -/
theorem Extraction.exists_sites {ms : List Message} (h : ∀ m ∈ ms, Returned m) :
    ∃ ss : List Site, ss.map Site.message = ms ∧ ∀ s ∈ ss, ∃ x file, s ∈ calls x file := by
  induction ms with
  | nil => exact ⟨[], rfl, List.forall_mem_nil _⟩
  | cons m ms ih =>
    obtain ⟨⟨x, disk, path, found, hfound, hm⟩, hms⟩ := List.forall_mem_cons.mp h
    obtain ⟨text, -, hcalls⟩ := call_of_mem_messages hfound
    obtain ⟨s, hs, rfl⟩ := hcalls m hm
    obtain ⟨ss, rfl, hss⟩ := ih hms
    exact ⟨s :: ss, rfl, List.forall_mem_cons.mpr ⟨⟨x, { path, text }, hs⟩, hss⟩⟩

namespace Catalog

/-- **Messages that cannot be translated, by their places.** Any messages that extractions return are those
of marked calls. In a catalog of them, there is one entry that cannot be translated for each line of a
source with a call that cannot be translated. Hence there is one for each such message exactly if no two of
them stand on the same line of the same source. No such entry has the key of a message that can be
translated. -/
theorem untranslatable_entries (ms : List Message) (h : ∀ m ∈ ms, Extraction.Returned m) :
    ∃ ss : List Site, ss.map Site.message = ms ∧ (∀ s ∈ ss, ∃ x file, s ∈ Extraction.calls x file) ∧
      let lost := ss.filter fun s => ¬ s.message.payload.Translatable
      let entries := (empty.addAll ms).entries.filter fun e => ¬ e.payload.Translatable
      (entries.map Entry.key).Perm ((lost.map Site.place).dedup.map Key.ofPlace) ∧
      (entries.length = lost.length ↔ (lost.map Site.place).Nodup) ∧
      ∀ e ∈ entries, ∀ m ∈ ms, m.payload.Translatable → m.key ≠ e.key := by
  obtain ⟨ss, rfl, hss⟩ := Extraction.exists_sites h
  refine ⟨ss, rfl, hss, ?_⟩
  intro lost entries
  have hkeys : (entries.map Entry.key).Perm ((lost.map Site.place).dedup.map Key.ofPlace) :=
    untranslatable_keys ss
  refine ⟨hkeys, ?_, ?_⟩
  -- as many entries as different places, which are as many as the messages if no place occurs twice
  · have hlength := hkeys.length_eq
    rw [List.length_map, List.length_map] at hlength
    rw [hlength, ← length_dedup_eq_iff, List.length_map]
  · intro e he m _ hm
    obtain ⟨hmem, hpayload⟩ := List.mem_filter.mp he
    exact (holds_addAll_empty _).key_ne_of_untranslatable hmem (of_decide_eq_true hpayload) hm

/-- The messages that are returned for a script. -/
def messagesOfScript (script : String) : List Message :=
  let disk := FileSystem.disk { items := [(["a.js"], .file (script.toList.flatMap Utf8.encodeChar))] }
  (Extraction.messages { markers := [["__"]] } disk "a.js").result.toOption.getD []

/-- The messages of a script, by the extraction that returns them. -/
theorem returned_messagesOfScript (script : String) : ∀ m ∈ messagesOfScript script, Extraction.Returned m := by
  intro m hm
  unfold messagesOfScript at hm
  dsimp only at hm
  -- no message is returned where there is an error
  cases hresult : (Extraction.messages { markers := [["__"]] } (FileSystem.disk
    { items := [(["a.js"], .file (script.toList.flatMap Utf8.encodeChar))] }) "a.js").result with
  | error error =>
    rw [hresult] at hm
    cases hm
  | ok found =>
    rw [hresult] at hm
    exact ⟨_, _, _, found, hresult, hm⟩

/-- Calls that cannot be translated on two lines have an entry each. -/
theorem untranslatable_entries_twoLines :
    let ms := messagesOfScript "__(1); __('a');\n__(2, 'x');"
    let entries := (empty.addAll ms).entries.filter fun e => ¬ e.payload.Translatable
    (∀ m ∈ ms, Extraction.Returned m) ∧ ms.length = 3 ∧ entries.length = 2 ∧
    ∃ ss : List Site, ss.map Site.message = ms ∧
      ((ss.filter fun s => ¬ s.message.payload.Translatable).map Site.place).Nodup ∧
      ∀ e ∈ entries, ∀ m ∈ ms, m.payload.Translatable → m.key ≠ e.key := by
  intro ms entries
  have hreturned : ∀ m ∈ ms, Extraction.Returned m := returned_messagesOfScript _
  have hcounts : ms.length = 3 ∧ (ms.filter fun m => ¬ m.payload.Translatable).length = 2 ∧
      entries.length = 2 := by
    decide +kernel
  obtain ⟨hms, hlost, hentries⟩ := hcounts
  obtain ⟨ss, hss, -, -, hnodup, hapart⟩ := untranslatable_entries ms hreturned
  refine ⟨hreturned, hms, hentries, ss, hss, hnodup.mp ?_, hapart⟩
  rw [← hss, List.filter_map, List.length_map] at hlost
  exact hentries.trans hlost.symm

/-- Of two calls on a line that cannot be translated, only the first is reported. -/
theorem untranslatable_entries_sameLine :
    let ms := messagesOfScript "__(1); __(2)"
    (∀ m ∈ ms, Extraction.Returned m) ∧
    (ms.filter fun m => ¬ m.payload.Translatable).length = 2 ∧
    ((empty.addAll ms).entries.filter fun e => ¬ e.payload.Translatable).length = 1 :=
  ⟨returned_messagesOfScript _, by decide +kernel, by decide +kernel⟩

end Catalog

end Phrasebook
