import Phrasebook.Proofs.MessageIds

/-!
# Phrasebook — payloads that are kept apart

A pair is merged by both of its texts with a bar between them, and a singular text by itself. A text may
hold bars, so the bar that divides a key cannot always be told: `a|b` and `c` are merged with `a` and `b|c`,
and also with the singular text `a|b|c`. What is lost then gives no error.

It can be told where the texts that payloads start with hold no bar. Then the first bar of a key is the one
that divides it, and a key without any is that of a singular text. Nothing is asked of the plural texts.

Main results:

* `Template.Strings.eq_of_identity_eq` — strings are known by the text by which they are merged;
* `Message.key_eq_iff` — messages have one key exactly if they have one payload;
* `Catalog.payloads_of_barFree` — a catalog has one entry for each payload.
-/

namespace Phrasebook

/-- A payload does not start with a text that holds a bar. -/
def Value.BarFree (payload : Value) : Prop := ∀ first ∈ payload.msgid?, CodePoint.ofChar '|' ∉ first

/-! ## Keys with bars -/

namespace Template.Strings

theorem barFree_payload_iff {s : Strings} : s.payload.BarFree ↔ CodePoint.ofChar '|' ∉ s.msgid := by
  simp only [Value.BarFree, msgid?_payload, Option.mem_some_iff, forall_eq']

/-- The text by which a pair is merged is divided by a bar. -/
theorem identity_plural (msgid plural : Text) :
    identity { msgid, plural := some plural } = msgid ++ .ofChar '|' :: plural :=
  List.append_assoc ..

theorem bar_mem_identity_plural (msgid plural : Text) :
    CodePoint.ofChar '|' ∈ identity { msgid, plural := some plural } := by
  rw [identity_plural]
  exact List.mem_append_right _ List.mem_cons_self

/-- **Strings are known by what they are merged by**, if their first texts hold no bar: up to its first bar
it is the first text. -/
theorem eq_of_identity_eq {s s' : Strings} (h : CodePoint.ofChar '|' ∉ s.msgid)
    (h' : CodePoint.ofChar '|' ∉ s'.msgid) (hsame : s.identity = s'.identity) : s = s' := by
  obtain ⟨msgid, plural⟩ := s
  obtain ⟨msgid', plural'⟩ := s'
  cases plural with
  | none =>
    cases plural' with
    | none => exact congrArg (fun msgid => Strings.mk msgid none) hsame
    | some plural' =>
      -- the singular text would hold the bar of the pair
      have hbar := bar_mem_identity_plural msgid' plural'
      rw [← hsame] at hbar
      exact absurd hbar h
  | some plural =>
    cases plural' with
    | none =>
      have hbar := bar_mem_identity_plural msgid plural
      rw [hsame] at hbar
      exact absurd hbar h'
    | some plural' =>
      rw [identity_plural, identity_plural] at hsame
      have hfirst := congrArg (List.takeWhile (!·.is '|')) hsame
      rw [Text.takeWhile_append_mark h, Text.takeWhile_append_mark h'] at hfirst
      change msgid = msgid' at hfirst
      subst hfirst
      rw [List.append_cancel_left_eq, List.cons.injEq] at hsame
      rw [hsame.2]

end Template.Strings

open Template (Strings)

theorem Message.key_of_payload {m : Message} {s : Strings} (h : m.payload = s.payload) :
    m.key = .text s.identity := by
  rw [key, h, Strings.identity?_payload]

/-- **One key, one payload**: messages that can be translated, and that do not start with a text that holds
a bar, are merged exactly if they have the same payload. -/
theorem Message.key_eq_iff {m m' : Message} (hm : m.payload.Translatable) (hm' : m'.payload.Translatable)
    (hbar : m.payload.BarFree) (hbar' : m'.payload.BarFree) :
    m.key = m'.key ↔ m.payload = m'.payload := by
  obtain ⟨s, hs⟩ := Strings.exists_of_translatable hm
  obtain ⟨s', hs'⟩ := Strings.exists_of_translatable hm'
  rw [hs, Strings.barFree_payload_iff] at hbar
  rw [hs', Strings.barFree_payload_iff] at hbar'
  rw [key_of_payload hs, key_of_payload hs', hs, hs', Strings.payload_injective.eq_iff, Key.text.injEq]
  exact ⟨Strings.eq_of_identity_eq hbar hbar', congrArg Strings.identity⟩

/-! ## Distinct values of a function -/

section

variable {α β : Type} {f : α → β}

/-- The distinct values of a function that tells the members of a list apart are those of the distinct
members. -/
theorem eraseDups_map_of_injOn [DecidableEq α] [DecidableEq β] {l : List α}
    (h : ∀ a ∈ l, ∀ b ∈ l, f a = f b → a = b) : (l.map f).eraseDups = l.eraseDups.map f := by
  -- what is equal to the first member is left out at once, so the induction is on the length
  induction hlength : l.length using Nat.strongRecOn generalizing l with
  | ind n ih =>
    cases l with
    | nil => rfl
    | cons a l =>
      rw [List.map_cons, List.eraseDups_cons, List.eraseDups_cons, List.map_cons, List.filter_map]
      have hothers : (l.filter ((fun b => !b == f a) ∘ f)) = l.filter fun b => !b == a := by
        apply List.filter_congr
        intro b hb
        have hiff : f b = f a ↔ b = a :=
          ⟨h b (List.mem_cons_of_mem _ hb) a List.mem_cons_self, congrArg f⟩
        simp only [Function.comp_apply, Bool.beq_eq_decide_eq, hiff]
      have hshorter : (l.filter fun b => !b == a).length < n := by
        have hle := List.length_filter_le (fun b => !b == a) l
        rw [List.length_cons] at hlength
        omega
      rw [hothers, ih _ hshorter _ rfl]
      intro b hb c hc
      exact h b (List.mem_cons_of_mem _ (List.mem_of_mem_filter hb)) c
        (List.mem_cons_of_mem _ (List.mem_of_mem_filter hc))

/-- Lists of members that a function tells apart are equal if its values are. -/
theorem eq_of_map_eq_of_injOn {l l' : List α} (h : ∀ a ∈ l, ∀ b ∈ l', f a = f b → a = b)
    (hmap : l.map f = l'.map f) : l = l' := by
  induction l generalizing l' with
  | nil =>
    rw [List.map_nil] at hmap
    exact (List.map_eq_nil_iff.mp hmap.symm).symm
  | cons a l ih =>
    obtain ⟨b, rest, rfl, hb, hrest⟩ := List.map_eq_cons_iff.mp hmap.symm
    have hfirst : a = b := h a List.mem_cons_self b List.mem_cons_self hb.symm
    have hothers : l = rest := by
      refine ih ?_ hrest.symm
      intro c hc d hd
      exact h c (List.mem_cons_of_mem _ hc) d (List.mem_cons_of_mem _ hd)
    rw [hfirst, hothers]

end

/-! ## One entry for each payload -/

/-- Messages that can be translated have the payloads of strings. -/
theorem Message.exists_strings {ms : List Message} (h : ∀ m ∈ ms, m.payload.Translatable) :
    ∃ ss : List Strings, List.Forall₂ (fun m s => m.payload = s.payload) ms ss := by
  induction ms with
  | nil => exact ⟨[], .nil⟩
  | cons m ms ih =>
    obtain ⟨hm, hms⟩ := List.forall_mem_cons.mp h
    obtain ⟨s, hs⟩ := Strings.exists_of_translatable hm
    obtain ⟨ss, hss⟩ := ih hms
    exact ⟨s :: ss, .cons hs hss⟩

theorem Message.map_payload {ms : List Message} {ss : List Strings}
    (h : List.Forall₂ (fun m s => m.payload = s.payload) ms ss) :
    ms.map Message.payload = ss.map Strings.payload := by
  rw [← List.forall₂_eq_eq_eq, List.forall₂_map_left_iff, List.forall₂_map_right_iff]
  exact h

namespace Catalog

/-- A catalog has an entry for each of its messages, with the payload of one that has the same key. -/
theorem Holds.get?_of_mem {c : Catalog} {ms : List Message} (h : c.Holds ms) {m : Message} (hm : m ∈ ms) :
    ∃ e, c.get? m.key = some e ∧ e.key = m.key ∧
      ∃ first ∈ ms, first.key = m.key ∧ e.payload = first.payload := by
  have hcontains : c.contains m.key = true := (h.contains_iff m.key).mpr (List.mem_map_of_mem hm)
  obtain ⟨e, he⟩ := Option.isSome_iff_exists.mp hcontains
  have hkey : e.key = m.key := by simpa using List.find?_some he
  obtain ⟨first, -, -, hfirst, hsame, -, hpayload⟩ :=
    Entry.exists_first (h.entry e (List.mem_of_find?_eq_some he))
  exact ⟨e, he, hkey, first, hfirst, hsame.trans hkey, hpayload⟩

/-- **Distinct payloads.** The entries have the distinct payloads of the messages, in the order in which these
first occur. -/
theorem Holds.payloads_eq {c : Catalog} {ms : List Message} (h : c.Holds ms)
    (hms : ∀ m ∈ ms, m.payload.Translatable) (hbar : ∀ m ∈ ms, m.payload.BarFree) {ss : List Strings}
    (hss : List.Forall₂ (fun m s => m.payload = s.payload) ms ss) :
    c.entries.map Entry.payload = ss.eraseDups.map Strings.payload := by
  -- no strings of a message start with a text that holds a bar, so their keys tell them apart
  have hfree : ∀ s : Strings, (∃ m ∈ ms, m.payload = s.payload) → CodePoint.ofChar '|' ∉ s.msgid := by
    rintro s ⟨m, hm, hs⟩
    rw [← Strings.barFree_payload_iff, ← hs]
    exact hbar m hm
  have hfrom : ∀ s ∈ ss, ∃ m ∈ ms, m.payload = s.payload := by
    intro s hs
    rw [← List.mem_map, Message.map_payload hss]
    exact List.mem_map_of_mem hs
  have hapart : ∀ s : Strings, (∃ m ∈ ms, m.payload = s.payload) → ∀ s' ∈ ss,
      Key.text s.identity = Key.text s'.identity → s = s' :=
    fun s hs s' hs' hsame =>
      Strings.eq_of_identity_eq (hfree s hs) (hfree s' (hfrom s' hs')) (Key.text.inj hsame)
  have hmessages : ms.map Message.key = ss.map fun s => Key.text s.identity := by
    rw [← List.forall₂_eq_eq_eq, List.forall₂_map_left_iff, List.forall₂_map_right_iff]
    exact hss.imp fun m s hs => Message.key_of_payload hs
  -- the strings of the entries have the distinct keys of the messages
  obtain ⟨listed, hlisted, hstored⟩ := h.exists_strings hms
  have hkeys : listed.map (fun s => Key.text s.identity) =
      ss.eraseDups.map fun s => Key.text s.identity := by
    rw [← Strings.map_key hlisted, h.keys, hmessages]
    exact eraseDups_map_of_injOn fun s hs => hapart s (hfrom s hs)
  have hsame : listed = ss.eraseDups := by
    refine eq_of_map_eq_of_injOn ?_ hkeys
    intro s hs s' hs'
    exact hapart s (hstored s hs) s' (List.mem_eraseDups.mp hs')
  rw [Strings.map_payload hlisted, hsame]

/-- **No distinct payload is lost.** Let messages be added to an empty catalog that can all be translated, and
of which none starts with a text that holds a bar; the plural texts may hold any number of bars. The payloads
of the entries are the distinct payloads of the messages, each once and in the order in which they first
occur. For every message there is an entry with its payload, and two messages share an entry exactly if they
have the same payload: so a singular text never shares one with a pair. -/
theorem payloads_of_barFree (ms : List Message) (hms : ∀ m ∈ ms, m.payload.Translatable)
    (hbar : ∀ m ∈ ms, m.payload.BarFree) :
    (∃ ss : List Strings, ms.map Message.payload = ss.map Strings.payload ∧
      (empty.addAll ms).entries.map Entry.payload = ss.eraseDups.map Strings.payload) ∧
    (∀ m ∈ ms, ∃ e, (empty.addAll ms).get? m.key = some e ∧ e.payload = m.payload) ∧
    ∀ m ∈ ms, ∀ m' ∈ ms,
      (empty.addAll ms).get? m.key = (empty.addAll ms).get? m'.key ↔ m.payload = m'.payload := by
  have hholds := holds_addAll_empty ms
  -- without bars in the first texts, keys tell payloads apart
  have hkey : ∀ m ∈ ms, ∀ m' ∈ ms, m.key = m'.key ↔ m.payload = m'.payload :=
    fun m hm m' hm' => Message.key_eq_iff (hms m hm) (hms m' hm') (hbar m hm) (hbar m' hm')
  refine ⟨?_, ?_, ?_⟩
  · obtain ⟨ss, hss⟩ := Message.exists_strings hms
    exact ⟨ss, Message.map_payload hss, hholds.payloads_eq hms hbar hss⟩
  · intro m hm
    -- the entry has the payload of the first message with its key
    obtain ⟨e, he, -, first, hfirst, hsame, hpayload⟩ := hholds.get?_of_mem hm
    exact ⟨e, he, hpayload.trans ((hkey first hfirst m hm).mp hsame)⟩
  · intro m hm m' hm'
    -- an entry knows its key, so that a shared entry means a shared key
    obtain ⟨e, he, hm_key, -⟩ := hholds.get?_of_mem hm
    obtain ⟨e', he', hm'_key, -⟩ := hholds.get?_of_mem hm'
    rw [he, he', ← hkey m hm m' hm', Option.some.injEq]
    constructor
    · intro hsame
      rw [← hm_key, hsame, hm'_key]
    · intro hsame
      rw [hsame, he', Option.some.injEq] at he
      exact he.symm

/-- A text, two pairs that start with it, one of them with bars in its plural, and the text once more. -/
def barredPlurals : List Message :=
  [messageOf (.text "a"), messageOf (.tuple [.text "a", .text "b|c|"]), messageOf (.tuple [.text "a", .text "b"]),
    messageOf (.text "a")]

/-- Bars in plurals do no harm: the text and both pairs have an entry each. -/
theorem payloads_of_barFree_barredPlurals :
    (∀ m ∈ barredPlurals, m.payload.Translatable) ∧ (∀ m ∈ barredPlurals, m.payload.BarFree) ∧
    (empty.addAll barredPlurals).size = 3 ∧
    ∃ ss : List Strings, barredPlurals.map Message.payload = ss.map Strings.payload ∧ ss.eraseDups.length = 3 := by
  have hvalid : ∀ m ∈ barredPlurals, m.payload.Translatable := by
    simp only [barredPlurals, List.forall_mem_cons]
    exact ⟨.singular _, .plural _ _, .plural _ _, .singular _, List.forall_mem_nil _⟩
  have hbar : ∀ m ∈ barredPlurals, m.payload.BarFree := by
    simp only [barredPlurals, List.forall_mem_cons]
    unfold Value.BarFree
    decide
  have hsize : (empty.addAll barredPlurals).size = 3 := by decide +kernel
  obtain ⟨⟨ss, hss, hentries⟩, -, -⟩ := payloads_of_barFree barredPlurals hvalid hbar
  have hlength := congrArg List.length hentries
  rw [List.length_map, List.length_map] at hlength
  exact ⟨hvalid, hbar, hsize, ss, hss, hlength.symm.trans hsize⟩

/-- A bar in the first text of a pair can hide that it is another one. -/
example :
    let pairs := [messageOf (.tuple [.text "a|b", .text "c"]), messageOf (.tuple [.text "a", .text "b|c"])]
    (empty.addAll pairs).size = 1 := by
  decide +kernel

end Catalog

end Phrasebook
