import Phrasebook.Proofs.Untranslatable

/-!
# Phrasebook — places before remarks

The comments of an entry are of two kinds: one *place* for every message that was merged into it, and the
*remarks* for translators that the messages bring along. The places stand first, and they do so for two
reasons. An entry that was never merged has its comments as its message gives them, and a message gives its
place first. An entry that was merged has its comments sorted: the label of a place is `#:`, that of a
remark `#.`, and a colon is greater than a full stop, so that a descending order puts the places first
whatever the paths, the comments and the notes are.

Main results:

* `Text.Descending.eq_filter_append` — a descending list starts with what is greater than all the rest;
* `Extraction.Site.labelled_message` — the labels of the comments of a message;
* `Entry.mergedComments_eq_append` — the two parts of the comments of an entry;
* `Catalog.places_before_remarks` — the comments of every entry.
-/

namespace Phrasebook

/-! ## Labels -/

/-- A comment for a place. -/
def Text.isPlace (c : Text) : Bool := ("#: " : Text).isPrefixOf c

namespace Text

theorem isPlace_iff {c : Text} : c.isPlace = true ↔ ("#: " : Text) <+: c := List.isPrefixOf_iff_prefix

/-- A remark is no place: the second code points differ. -/
theorem isPlace_of_remark {c : Text} (h : ("#. " : Text) <+: c) : c.isPlace = false := by
  obtain ⟨rest, rfl⟩ := h
  rfl

/-- A place is greater than every remark. -/
theorem unitsGe_remark_place {a b : Text} (ha : ("#. " : Text) <+: a) (hb : ("#: " : Text) <+: b) :
    unitsGe a b = false := by
  obtain ⟨a, rfl⟩ := ha
  obtain ⟨b, rfl⟩ := hb
  -- both start with a number sign; then a colon is compared with a full stop
  rfl

/-- **A descending list starts with what is greater than all the rest.** -/
theorem Descending.eq_filter_append {p : Text → Bool} {ts : List Text} (hts : Descending ts)
    (h : ∀ a ∈ ts, ∀ b ∈ ts, p a = false → p b = true → unitsGe a b = false) :
    ts = ts.filter p ++ ts.filter fun t => !p t := by
  induction ts with
  | nil => rfl
  | cons t ts ih =>
    obtain ⟨ht, hts⟩ := List.pairwise_cons.mp hts
    have hrest := ih hts fun a ha b hb => h a (List.mem_cons_of_mem _ ha) b (List.mem_cons_of_mem _ hb)
    cases hp : p t with
    | true =>
      rw [List.filter_cons_of_pos hp, List.filter_cons_of_neg (by simp [hp]), List.cons_append, ← hrest]
    | false =>
      -- none of the greater ones can follow a smaller one
      have hnone : ts.filter p = [] := by
        rw [List.filter_eq_nil_iff]
        intro b hb hpb
        have hlt := h t List.mem_cons_self b (List.mem_cons_of_mem _ hb) hp hpb
        rw [ht b hb] at hlt
        cases hlt
      rw [hnone, List.nil_append] at hrest
      rw [List.filter_cons_of_neg (by simp [hp]), List.filter_cons_of_pos (by simp [hp]), hnone,
        List.nil_append, ← hrest]

end Text

/-! ## Messages -/

/-- The comments of a message bear the labels of their kinds. -/
structure Message.Labelled (m : Message) : Prop where
  location : ("#: " : Text) <+: m.location
  comments : ∀ c ∈ m.comments, ("#. " : Text) <+: c

/-- **The labels of the comments of a message**, whatever its path, its comments and its notes are. -/
theorem Extraction.Site.labelled_message (s : Extraction.Site) : s.message.Labelled := by
  constructor
  · have hlocation : s.message.location = Marker.location s.origin s.call.line := s.raw.place_decoded.2
    rw [hlocation, Marker.location, List.append_assoc, List.append_assoc]
    exact List.prefix_append _ _
  · intro c hc
    rcases Message.mem_comments_decoded hc with hraw | hnote
    · obtain ⟨line, -, rfl⟩ := List.mem_map.mp hraw
      exact List.prefix_append _ _
    · exact hnote.isPrefix

namespace Message

theorem Labelled.of_mem_notes {m : Message} (h : m.Labelled) {c : Text} (hc : c ∈ m.notes) :
    ("#: " : Text) <+: c ∨ ("#. " : Text) <+: c := by
  rcases List.mem_cons.mp hc with rfl | hcomment
  · exact .inl h.location
  · exact .inr (h.comments c hcomment)

/-- The places among the comments of messages are their locations. -/
theorem filter_isPlace {ms : List Message} (h : ∀ m ∈ ms, m.Labelled) :
    (ms.flatMap notes).filter Text.isPlace = ms.map location := by
  induction ms with
  | nil => rfl
  | cons m ms ih =>
    obtain ⟨hm, hms⟩ := List.forall_mem_cons.mp h
    have hnone : m.comments.filter Text.isPlace = [] := by
      rw [List.filter_eq_nil_iff]
      intro c hc hplace
      rw [Text.isPlace_of_remark (hm.comments c hc)] at hplace
      cases hplace
    rw [List.flatMap_cons, List.filter_append, ih hms, notes,
      List.filter_cons_of_pos (Text.isPlace_iff.mpr hm.location), hnone]
    rfl

/-- The others are their remarks. -/
theorem filter_not_isPlace {ms : List Message} (h : ∀ m ∈ ms, m.Labelled) :
    ((ms.flatMap notes).filter fun c => !c.isPlace) = ms.flatMap comments := by
  induction ms with
  | nil => rfl
  | cons m ms ih =>
    obtain ⟨hm, hms⟩ := List.forall_mem_cons.mp h
    have hall : (m.comments.filter fun c => !c.isPlace) = m.comments := by
      rw [List.filter_eq_self]
      intro c hc
      rw [Text.isPlace_of_remark (hm.comments c hc)]
      rfl
    rw [List.flatMap_cons, List.filter_append, ih hms, notes,
      List.filter_cons_of_neg (by simp [Text.isPlace_iff.mpr hm.location]), hall, List.flatMap_cons]

end Message

/-! ## Entries -/

namespace Entry

/-- Several messages have their comments in descending order. -/
theorem descending_mergedComments (first second : Message) (later : List Message) :
    Text.Descending (mergedComments first (second :: later)) := by
  rw [mergedComments, List.isEmpty_cons, if_neg Bool.false_ne_true, ← Text.sortDescending_eq_mergeSort]
  exact Text.descending_sortDescending _

/-- **The comments of an entry** are its places, then its remarks, whether it was merged or not. -/
theorem mergedComments_eq_append {first : Message} {later : List Message}
    (h : ∀ m ∈ first :: later, m.Labelled) :
    mergedComments first later =
      (mergedComments first later).filter Text.isPlace ++
        (mergedComments first later).filter fun c => !c.isPlace := by
  cases later with
  | nil =>
    -- a single message gives its place first
    have hcomments : mergedComments first [] = [first].flatMap Message.notes := by
      rw [List.flatMap_singleton]
      rfl
    rw [hcomments, Message.filter_isPlace h, Message.filter_not_isPlace h, List.flatMap_singleton,
      List.flatMap_singleton]
    rfl
  | cons second later =>
    -- those of several messages are sorted
    refine (descending_mergedComments first second later).eq_filter_append ?_
    intro a ha b _ hremark hplace
    obtain ⟨m, hm, hnote⟩ := List.mem_flatMap.mp ((mergedComments_perm _ _).mem_iff.mp ha)
    rcases (h m hm).of_mem_notes hnote with hlabel | hlabel
    · rw [Text.isPlace_iff.mpr hlabel] at hremark
      cases hremark
    · exact Text.unitsGe_remark_place hlabel (Text.isPlace_iff.mp hplace)

end Entry

namespace Catalog

/-- **Places before remarks.** In a catalog of messages that extractions return, the comments of an entry
are the places of all messages with its key, and behind them all remarks of these messages; so there are as
many places as messages, at least one. If there are several messages, the places and the remarks are each
in descending order of their code units. -/
theorem places_before_remarks (ms : List Message) (h : ∀ m ∈ ms, Extraction.Returned m) :
    ∀ e ∈ (empty.addAll ms).entries, ∃ places remarks, e.comments = places ++ remarks ∧
      places ≠ [] ∧
      (∀ c ∈ places, ("#: " : Text) <+: c) ∧
      (∀ c ∈ remarks, ("#. " : Text) <+: c) ∧
      places.Perm ((ms.filter (·.key == e.key)).map Message.location) ∧
      remarks.Perm ((ms.filter (·.key == e.key)).flatMap Message.comments) ∧
      places.length = (ms.filter (·.key == e.key)).length ∧
      (2 ≤ (ms.filter (·.key == e.key)).length →
        (places.Pairwise fun a b => b.unitsLe a) ∧ remarks.Pairwise fun a b => b.unitsLe a) := by
  obtain ⟨ss, rfl, -⟩ := Extraction.exists_sites h
  intro e he
  obtain ⟨first, later, hoccurrences, -, -, hcomments, -⟩ :=
    Entry.exists_first ((holds_addAll_empty _).entry e he)
  have hlabelled : ∀ m ∈ first :: later, m.Labelled := by
    intro m hm
    rw [← hoccurrences] at hm
    obtain ⟨s, -, rfl⟩ := List.mem_map.mp (List.mem_filter.mp hm).1
    exact s.labelled_message
  have hfilter : (ss.map Extraction.Site.message).filter (·.key == e.key) = first :: later := hoccurrences
  have hperm := Entry.mergedComments_perm first later
  have hplaces : (e.comments.filter Text.isPlace).Perm ((first :: later).map Message.location) := by
    rw [hcomments, ← Message.filter_isPlace hlabelled]
    exact hperm.filter _
  have hremarks : (e.comments.filter fun c => !c.isPlace).Perm ((first :: later).flatMap Message.comments) := by
    rw [hcomments, ← Message.filter_not_isPlace hlabelled]
    exact hperm.filter _
  rw [hfilter]
  refine ⟨_, _, ?_, ?_, ?_, ?_, hplaces, hremarks, ?_, ?_⟩
  · rw [hcomments]
    exact Entry.mergedComments_eq_append hlabelled
  · intro hnone
    rw [hnone] at hplaces
    cases hplaces.length_eq
  · exact fun c hc => Text.isPlace_iff.mp (List.mem_filter.mp hc).2
  · intro c hc
    obtain ⟨m, hm, hcomment⟩ := List.mem_flatMap.mp (hremarks.mem_iff.mp hc)
    exact (hlabelled m hm).comments c hcomment
  · rw [hplaces.length_eq, List.length_map]
  · intro hseveral
    cases later with
    | nil => simp at hseveral
    | cons second later =>
      -- parts of a descending list are descending
      have hsorted : Text.Descending e.comments := by
        rw [hcomments]
        exact Entry.descending_mergedComments first second later
      exact ⟨hsorted.filter _, hsorted.filter _⟩

/-- Two messages with one key, each with a comment and one with a note, around one with a key of its own. -/
theorem places_before_remarks_greetings :
    let ms := messagesOfScript "__(/* b */ 'Hi \x7bx#a\x7d'); __('Bye');\n__(/* c */ 'Hi \x7bx\x7d')"
    (∀ m ∈ ms, Extraction.Returned m) ∧
    ∃ e ∈ (empty.addAll ms).entries, (ms.filter (·.key == e.key)).length = 2 ∧
      ∃ places remarks, e.comments = places ++ remarks ∧ places.length = 2 ∧
        (∀ c ∈ places, ("#: " : Text) <+: c) ∧ (∀ c ∈ remarks, ("#. " : Text) <+: c) ∧
        (places.Pairwise fun a b => b.unitsLe a) ∧ remarks.Pairwise fun a b => b.unitsLe a := by
  intro ms
  have hreturned : ∀ m ∈ ms, Extraction.Returned m := returned_messagesOfScript _
  have hmerged : ((empty.addAll ms).entries.any fun e => (ms.filter (·.key == e.key)).length == 2) = true := by
    decide +kernel
  obtain ⟨e, he, hlength⟩ := List.any_eq_true.mp hmerged
  rw [beq_iff_eq] at hlength
  obtain ⟨places, remarks, hcomments, -, hplaces, hremarks, -, -, hcount, hsorted⟩ :=
    places_before_remarks ms hreturned e he
  exact ⟨hreturned, e, he, hlength, places, remarks, hcomments, hcount.trans hlength, hplaces, hremarks,
    hsorted hlength.ge⟩

end Catalog

end Phrasebook
