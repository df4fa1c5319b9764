import Mathlib.Data.List.Basic
import Mathlib.Data.List.Induction
import Phrasebook.Proofs.DescendingOrder

/-!
# Phrasebook — what a catalog holds

A catalog is filled message by message, and every later message of a key sorts the comments of its
entry again. This module says what the catalog holds in terms of the messages alone: the distinct keys
in the order of their first occurrence, and for each key one entry, computed from its *occurrences*.

`Catalog.Holds c ms` is the invariant. It is kept by adding one message (`Holds.add`), hence by adding
any number of them (`Holds.addAll`).

Main results:

* `Catalog.holds_addAll_empty` — a catalog holds the messages it was filled with;
* `Catalog.entries_addAll_empty` — its closed form, with every comment list written as one stable sort
  of all comments of the key.
-/

namespace Phrasebook

/-! ## Entries from occurrences -/

/-- The messages of a list that have the given key, in their order. -/
def Key.occurrences (key : Key) (ms : List Message) : List Message := ms.filter (·.key == key)

/-- The comments of an entry: those of a single message as they are, those of several sorted once. -/
def Entry.mergedComments (first : Message) (later : List Message) : List Text :=
  if later.isEmpty then first.notes
  else ((first :: later).flatMap Message.notes).mergeSort Text.unitsGe

/-- The entry for all messages of a key, if there are any. -/
def Entry.ofOccurrences? : List Message → Option Entry
  | [] => none
  | first :: later =>
    some {
      key := first.key
      comments := mergedComments first later
      payload := first.payload
      origin := first.origin }

@[simp] theorem Key.occurrences_append (key : Key) (ms ms' : List Message) :
    key.occurrences (ms ++ ms') = key.occurrences ms ++ key.occurrences ms' :=
  List.filter_append ..

theorem Key.occurrences_singleton_of_ne {key : Key} {m : Message} (h : m.key ≠ key) :
    key.occurrences [m] = [] := by
  simp [occurrences, h]

@[simp] theorem Key.occurrences_singleton_self (m : Message) : m.key.occurrences [m] = [m] := by
  simp [occurrences]

theorem Key.occurrences_eq_nil {key : Key} {ms : List Message} (h : key ∉ ms.map Message.key) :
    key.occurrences ms = [] := by
  rw [occurrences, List.filter_eq_nil_iff]
  intro m hm hkey
  rw [beq_iff_eq] at hkey
  exact h (List.mem_map.mpr ⟨m, hm, hkey⟩)

/-- Entries collect messages: there is one entry for each of the keys, in their order, and it is the one
for all messages with its key. -/
structure Entry.Collect (es : List Entry) (keys : List Key) (ms : List Message) : Prop where
  keys  : es.map Entry.key = keys
  entry : ∀ e ∈ es, Entry.ofOccurrences? (e.key.occurrences ms) = some e

theorem Entry.mergedComments_perm (first : Message) (later : List Message) :
    (mergedComments first later).Perm ((first :: later).flatMap Message.notes) := by
  rw [mergedComments]
  split
  · next hempty =>
    rw [List.isEmpty_iff] at hempty
    simp [hempty]
  · exact List.mergeSort_perm _ _

/-- An entry is made from the first message with its key and those that follow it. -/
theorem Entry.exists_first {ms : List Message} {e : Entry}
    (h : ofOccurrences? (e.key.occurrences ms) = some e) :
    ∃ first later, e.key.occurrences ms = first :: later ∧ first ∈ ms ∧ first.key = e.key ∧
      e.comments = mergedComments first later ∧ e.payload = first.payload := by
  cases hoccurrences : e.key.occurrences ms with
  | nil =>
    rw [hoccurrences] at h
    cases h
  | cons first later =>
    have hmem : first ∈ e.key.occurrences ms := by
      rw [hoccurrences]
      exact List.mem_cons_self
    obtain ⟨hfirst, hkey⟩ := List.mem_filter.mp hmem
    rw [hoccurrences, ofOccurrences?, Option.some.injEq] at h
    refine ⟨first, later, rfl, hfirst, beq_iff_eq.mp hkey, ?_, ?_⟩
    · rw [← h]
    · rw [← h]

/-- **One more occurrence.** The sort that a merge makes of the comments so far and the new ones is the
sort of all comments. -/
theorem Entry.merge_ofOccurrences? {occurrences : List Message} {e : Entry} (m : Message)
    (h : ofOccurrences? occurrences = some e) :
    ofOccurrences? (occurrences ++ [m]) = some (e.merge m) := by
  cases occurrences with
  | nil => simp [ofOccurrences?] at h
  | cons first later =>
    simp only [ofOccurrences?, Option.some.injEq] at h
    subst h
    have hcomments : mergedComments first (later ++ [m]) =
        Text.sortDescending (mergedComments first later ++ m.notes) := by
      have hnew : (later ++ [m]).isEmpty = false := by simp
      rw [mergedComments, hnew, if_neg Bool.false_ne_true, ← Text.sortDescending_eq_mergeSort,
        ← List.cons_append, List.flatMap_append, List.flatMap_singleton]
      cases later with
      | nil => simp [mergedComments]
      | cons second others =>
        -- the comments so far are sorted already
        rw [mergedComments, List.isEmpty_cons, if_neg Bool.false_ne_true,
          ← Text.sortDescending_eq_mergeSort, Text.sortDescending_append_left]
    simp [ofOccurrences?, merge, hcomments]

namespace Catalog

/-! ## The invariant -/

/-- A catalog holds the given messages, and nothing else. -/
abbrev Holds (c : Catalog) (ms : List Message) : Prop :=
  Entry.Collect c.entries (ms.map Message.key).eraseDups ms

theorem holds_empty : Holds empty [] := by
  refine ⟨rfl, ?_⟩
  intro e he
  cases he

@[simp] theorem contains_iff (c : Catalog) (key : Key) :
    c.contains key = true ↔ key ∈ c.entries.map Entry.key := by
  rw [contains, get?, List.find?_isSome, List.mem_map]
  simp only [beq_iff_eq]

theorem Holds.contains_iff {c : Catalog} {ms : List Message} (h : c.Holds ms) (key : Key) :
    c.contains key = true ↔ key ∈ ms.map Message.key := by
  rw [Catalog.contains_iff, h.keys, List.mem_eraseDups]

/-- A key that occurred before is no new distinct key. -/
theorem eraseDups_snoc_of_mem {keys : List Key} {key : Key} (h : key ∈ keys) :
    (keys ++ [key]).eraseDups = keys.eraseDups := by
  rw [List.eraseDups_append, List.cons_removeAll, if_neg (by simp [h])]
  exact List.append_nil _

/-- A key that did not occur before comes behind the distinct keys before it, whatever follows. -/
theorem eraseDups_append_cons_of_not_mem {keys : List Key} {key : Key} (h : key ∉ keys)
    (after : List Key) :
    (keys ++ key :: after).eraseDups =
      keys.eraseDups ++ key :: ((after.removeAll keys).filter fun k => !k == key).eraseDups := by
  rw [List.eraseDups_append, List.cons_removeAll, if_pos (by simp [h]), List.eraseDups_cons]

/-- Distinct keys are listed once each. -/
theorem nodup_eraseDups (keys : List Key) : keys.eraseDups.Nodup := by
  induction keys using List.reverseRecOn with
  | nil => exact List.nodup_nil
  | append_singleton keys key ih =>
    by_cases h : key ∈ keys
    · rw [eraseDups_snoc_of_mem h]
      exact ih
    · have hsnoc : (keys ++ [key]).eraseDups = keys.eraseDups ++ [key] :=
        eraseDups_append_cons_of_not_mem h []
      have hnew : key ∉ keys.eraseDups := fun hmem => h (List.mem_eraseDups.mp hmem)
      rw [hsnoc, List.nodup_append]
      refine ⟨ih, List.pairwise_singleton _ key, ?_⟩
      intro other hother key' hkey' heq
      rw [List.mem_singleton] at hkey'
      exact hnew (hkey' ▸ heq ▸ hother)

/-- No two entries have the same key. -/
theorem Holds.nodup_keys {c : Catalog} {ms : List Message} (h : c.Holds ms) :
    (c.entries.map Entry.key).Nodup := by
  rw [h.keys]
  exact nodup_eraseDups _

/-- **Step.** Adding a message keeps the invariant. -/
theorem Holds.add {c : Catalog} {ms : List Message} (h : c.Holds ms) (m : Message) :
    (c.add m).Holds (ms ++ [m]) := by
  rw [Catalog.add]
  split
  · next hcontains =>
    -- a known key: its entry is merged, the others stay
    rw [h.contains_iff] at hcontains
    constructor
    · rw [List.map_append, List.map_singleton, eraseDups_snoc_of_mem hcontains, ← h.keys,
        List.map_map]
      apply List.map_congr_left
      intro e _
      simp only [Function.comp_apply]
      split <;> rfl
    · intro e he
      obtain ⟨old, hold, rfl⟩ := List.mem_map.mp he
      have hbefore := h.entry old hold
      split
      · next hkey =>
        rw [beq_iff_eq] at hkey
        have hsame : (old.merge m).key = m.key := hkey
        rw [hsame, Key.occurrences_append, Key.occurrences_singleton_self]
        rw [hkey] at hbefore
        exact Entry.merge_ofOccurrences? m hbefore
      · next hkey =>
        rw [beq_iff_eq] at hkey
        rw [Key.occurrences_append, Key.occurrences_singleton_of_ne (Ne.symm hkey),
          List.append_nil]
        exact hbefore
  · next hcontains =>
    -- a new key: its entry comes last
    rw [h.contains_iff] at hcontains
    constructor
    · rw [List.map_append, List.map_append, h.keys, List.map_singleton, List.map_singleton,
        eraseDups_append_cons_of_not_mem hcontains]
      rfl
    · intro e he
      rcases List.mem_append.mp he with hold | hnew
      · have hkey : m.key ≠ e.key := by
          intro hkey
          apply hcontains
          rw [hkey, ← List.mem_eraseDups, ← h.keys]
          exact List.mem_map_of_mem hold
        rw [Key.occurrences_append, Key.occurrences_singleton_of_ne hkey, List.append_nil]
        exact h.entry e hold
      · rw [List.mem_singleton] at hnew
        subst hnew
        show Entry.ofOccurrences? (m.key.occurrences (ms ++ [m])) = _
        rw [Key.occurrences_append, Key.occurrences_eq_nil hcontains,
          Key.occurrences_singleton_self]
        rfl

/-- **Run.** Adding messages one after the other keeps the invariant. -/
theorem Holds.addAll {c : Catalog} {ms : List Message} (h : c.Holds ms) (more : List Message) :
    (c.addAll more).Holds (ms ++ more) := by
  induction more generalizing c ms with
  | nil =>
    rw [List.append_nil]
    exact h
  | cons m more ih =>
    have hstep := ih (h.add m)
    rw [List.append_assoc] at hstep
    exact hstep

theorem holds_addAll_empty (ms : List Message) : (empty.addAll ms).Holds ms :=
  holds_empty.addAll ms

/-! ## The entries -/

/-- **Closed form of a catalog.** There is one entry for every distinct key, in the order in which the
keys first occur. It has the payload and the origin of the first message with its key. The comments of
a single message stand as they are; those of several messages are concatenated in the order of the
messages and sorted once, stably and in descending order of their code units, so that none is lost or
made up. -/
theorem entries_addAll_empty (ms : List Message) :
    (empty.addAll ms).entries.map Entry.key = (ms.map Message.key).eraseDups ∧
    ∀ e ∈ (empty.addAll ms).entries, ∃ first later,
      ms.filter (·.key == e.key) = first :: later ∧
      e.payload = first.payload ∧
      e.origin = first.origin ∧
      (later = [] → e.comments = first.location :: first.comments) ∧
      (later ≠ [] → e.comments =
        ((first :: later).flatMap fun m => m.location :: m.comments).mergeSort
          fun a b => b.unitsLe a) ∧
      e.comments.Perm ((first :: later).flatMap fun m => m.location :: m.comments) := by
  have hholds := holds_addAll_empty ms
  refine ⟨hholds.keys, ?_⟩
  intro e he
  -- the invariant of a catalog tells an entry by the messages with its key
  have hentry := hholds.entry e he
  cases hoccurrences : e.key.occurrences ms with
  | nil =>
    rw [hoccurrences] at hentry
    cases hentry
  | cons first later =>
    rw [hoccurrences, Entry.ofOccurrences?, Option.some.injEq] at hentry
    have hcomments : e.comments = Entry.mergedComments first later := by rw [← hentry]
    refine ⟨first, later, hoccurrences, by rw [← hentry], by rw [← hentry], ?_, ?_, ?_⟩
    · intro hlater
      rw [hcomments, hlater]
      rfl
    · intro hlater
      rw [hcomments, Entry.mergedComments, List.isEmpty_eq_false_iff.mpr hlater,
        if_neg Bool.false_ne_true]
      rfl
    · rw [hcomments]
      -- sorted or not, the comments are those of the messages
      exact Entry.mergedComments_perm first later

end Catalog

end Phrasebook
