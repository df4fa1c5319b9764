import Mathlib.Data.List.Nodup
import Mathlib.Data.List.Perm.Basic
import Phrasebook.Proofs.Lines
import Phrasebook.Proofs.RoundTrip

/-!
# Phrasebook — messages in another order

Directories list their names in an order that nobody chooses, so the messages of two extractions from the
same files may come in different orders. The order of the blocks changes with it. The blocks themselves
stay the same, as long as messages that share a key have the same payload.

This is not obvious, because an entry treats its messages in two ways: the comments of a single message
stand as they came, those of several are sorted. But how many messages share a key does not depend on their
order, and a sorted list is determined by what it holds, as long as no two different texts have the same
code units. Texts without split pairs are such, and every comment of an extraction is one: a comment of a
source holds no surrogates at all, a note is cut out of the value of a literal, and a path holds no high
surrogate.

Main results:

* `Text.Descending.eq_of_perm` — sorted lists of the same pair-free texts are equal;
* `Entry.entryLines_eq_of_perm` — the block of a key depends on its messages, not on their order;
* `Extraction.Site.pairFree_notes` — the comments of an extraction are pair-free;
* `Extraction.blocks_of_reordered` — messages in another order, and directories that list their names in
  another order, give the same blocks.
-/

namespace Phrasebook

/-! ## Sorted comments -/

/-- **Sorted lists.** Descending lists that hold the same pair-free texts are equal. -/
theorem Text.Descending.eq_of_perm {xs ys : List Text} (hxs : Descending xs) (hys : Descending ys)
    (hperm : xs.Perm ys) (hfree : ∀ t ∈ xs, t.PairFree) : xs = ys := by
  refine hperm.eq_of_pairwise ?_ hxs hys
  intro a b ha hb hab hba
  -- neither is smaller, so both have the same units
  have hunits : a.units = b.units := unitListLe_antisymm hba hab
  exact eq_of_units_eq (hfree a ha) (hfree b (hperm.mem_iff.mpr hb)) hunits

/-- The comments of merged messages do not depend on the order of the messages, if no text among them has a
split pair. Those of several messages are sorted; those of one message stand as they are. -/
theorem Entry.mergedComments_of_perm {first first' : Message} {later later' : List Message}
    (hperm : (first :: later).Perm (first' :: later'))
    (hfree : ∀ m ∈ first :: later, ∀ c ∈ m.notes, c.PairFree) :
    mergedComments first later = mergedComments first' later' := by
  cases later with
  | nil =>
    -- a single message is the only one in any order
    have hsingle : first' :: later' = [first] := List.perm_singleton.mp hperm.symm
    obtain ⟨rfl, rfl⟩ := List.cons.inj hsingle
    rfl
  | cons second others =>
    obtain ⟨second', others', rfl⟩ : ∃ second' others', later' = second' :: others' := by
      cases later' with
      | nil => exact absurd hperm.length_eq (by simp)
      | cons second' others' => exact ⟨second', others', rfl⟩
    have hsorted : ∀ a b rest, Text.Descending (mergedComments a (b :: rest)) :=
      fun a b rest => List.pairwise_mergeSort Text.unitsGe_trans Text.unitsGe_total _
    have hnotes : (mergedComments first (second :: others)).Perm (mergedComments first' (second' :: others')) :=
      (mergedComments_perm _ _).trans ((hperm.flatMap_right _).trans (mergedComments_perm _ _).symm)
    -- two sorted lists of the same comments are equal, as no two different comments have the same code units
    refine (hsorted _ _ _).eq_of_perm (hsorted _ _ _) hnotes ?_
    intro c hc
    rw [(mergedComments_perm _ _).mem_iff, List.mem_flatMap] at hc
    obtain ⟨m, hm, hc⟩ := hc
    exact hfree m hm c hc

/-! ## Blocks -/

/-- Messages whose order does not matter: all can be translated, one identity has one payload, and no
comment has a split pair. -/
structure Message.Consistent (ms : List Message) : Prop where
  valid   : ∀ m ∈ ms, m.payload.Translatable
  payload : ∀ m ∈ ms, ∀ m' ∈ ms, m.payload.identity? = m'.payload.identity? → m.payload = m'.payload
  notes   : ∀ m ∈ ms, ∀ c ∈ m.location :: m.comments, c.PairFree

theorem Message.Consistent.of_perm {ms ms' : List Message} (h : Consistent ms) (hperm : ms.Perm ms') :
    Consistent ms' where
  valid m hm := h.valid m (hperm.mem_iff.mpr hm)
  payload m hm m' hm' := h.payload m (hperm.mem_iff.mpr hm) m' (hperm.mem_iff.mpr hm')
  notes m hm := h.notes m (hperm.mem_iff.mpr hm)

/-- Messages with the same key have the same identity. -/
theorem Message.identity?_eq_of_key_eq {m m' : Message} (hm : m.payload.Translatable)
    (hm' : m'.payload.Translatable) (hkey : m.key = m'.key) :
    m.payload.identity? = m'.payload.identity? := by
  obtain ⟨t, ht⟩ := Option.isSome_iff_exists.mp (Value.identity?_isSome_iff.mpr hm)
  obtain ⟨t', ht'⟩ := Option.isSome_iff_exists.mp (Value.identity?_isSome_iff.mpr hm')
  simp only [key, ht, ht', Key.text.injEq] at hkey
  rw [ht, ht', hkey]

/-- **The block of a key.** Entries for the same messages of a key, in whatever order, have the same lines. -/
theorem Entry.entryLines_eq_of_perm {ms ms' : List Message} (hms : Message.Consistent ms)
    (hperm : ms.Perm ms') {e e' : Entry} (he : ofOccurrences? (e.key.occurrences ms) = some e)
    (he' : ofOccurrences? (e'.key.occurrences ms') = some e') (hkey : e.key = e'.key) :
    Template.entryLines e = Template.entryLines e' := by
  obtain ⟨first, later, hfirst, hmem, hfirstKey, hcomments, hpayload⟩ := exists_first he
  obtain ⟨first', later', hfirst', hmem', hfirstKey', hcomments', hpayload'⟩ := exists_first he'
  have hoccurrences : (first :: later).Perm (first' :: later') := by
    rw [← hfirst, ← hfirst', hkey]
    exact hperm.filter _
  -- both first messages have the key, so they have one payload
  have hsame : first.payload = first'.payload := by
    have hmem'' : first' ∈ ms := hperm.mem_iff.mpr hmem'
    have hkeys : first.key = first'.key := by rw [hfirstKey, hfirstKey', hkey]
    exact hms.payload first hmem first' hmem''
      (Message.identity?_eq_of_key_eq (hms.valid first hmem) (hms.valid first' hmem'') hkeys)
  have hmerged : mergedComments first later = mergedComments first' later' := by
    refine mergedComments_of_perm hoccurrences fun m hm => hms.notes m ?_
    rw [← hfirst] at hm
    exact List.mem_of_mem_filter hm
  simp only [Template.entryLines, hcomments, hcomments', hpayload, hpayload', hsame, hmerged]

namespace Catalog

/-- A catalog is written whole, as the given blocks in their order, each for its key. -/
structure WrittenAs (c : Catalog) (blocks : List (Key × Text)) : Prop where
  each : c.entries.map (fun e => (e.key, Template.block e)) = blocks.map fun (key, text) => (key, .ok text)
  text : Template.write c.entries = { text := (blocks.map Prod.snd).flatten, error := none }

/-- The key of an entry and the text of its block. -/
def blockOf (e : Entry) : Key × Text := (e.key, Template.joinLines (Template.entryLines e ++ [[]]))

/-- A catalog whose entries can all be translated is written as the blocks of its entries. -/
theorem writtenAs_of_translatable {c : Catalog} (h : ∀ e ∈ c.entries, e.payload.Translatable) :
    c.WrittenAs (c.entries.map blockOf) where
  each := by
    rw [List.map_map]
    apply List.map_congr_left
    intro e he
    simp only [Template.block_of_translatable (h e he), Function.comp_apply, blockOf]
  text := by
    rw [Template.write_of_translatable h, Template.allLines, Template.joinLines, List.flatMap_assoc,
      List.map_map, ← List.flatMap_def]
    rfl

/-- Every block of one catalog is a block of the other. -/
theorem map_blockOf_subset {c c' : Catalog} {ms ms' : List Message} (hc : c.Holds ms) (hc' : c'.Holds ms')
    (hms : Message.Consistent ms) (hperm : ms.Perm ms') :
    c.entries.map blockOf ⊆ c'.entries.map blockOf := by
  intro block hblock
  obtain ⟨e, he, rfl⟩ := List.mem_map.mp hblock
  -- the key of the entry occurs among the other messages too, and has an entry there
  have hkey : e.key ∈ c'.entries.map Entry.key := by
    have hmem : e.key ∈ c.entries.map Entry.key := List.mem_map_of_mem he
    rw [hc.keys, List.mem_eraseDups] at hmem
    rw [hc'.keys, List.mem_eraseDups]
    exact (hperm.map Message.key).mem_iff.mp hmem
  obtain ⟨e', he', hsame⟩ := List.mem_map.mp hkey
  have hlines := Entry.entryLines_eq_of_perm hms hperm (hc.entry e he) (hc'.entry e' he') hsame.symm
  refine List.mem_map.mpr ⟨e', he', ?_⟩
  rw [blockOf, blockOf, hsame, hlines]

/-- **Messages in another order** give the same blocks. -/
theorem perm_blockOf {c c' : Catalog} {ms ms' : List Message} (hc : c.Holds ms) (hc' : c'.Holds ms')
    (hms : Message.Consistent ms) (hperm : ms.Perm ms') :
    (c.entries.map blockOf).Perm (c'.entries.map blockOf) := by
  have hnodup : ∀ {c : Catalog} {ms : List Message}, c.Holds ms → (c.entries.map blockOf).Nodup := by
    intro c ms hc
    -- the blocks already differ in their keys
    refine List.Nodup.of_map Prod.fst ?_
    rw [List.map_map]
    exact hc.nodup_keys
  rw [List.perm_ext_iff_of_nodup (hnodup hc) (hnodup hc')]
  intro block
  exact ⟨fun h => map_blockOf_subset hc hc' hms hperm h,
    fun h => map_blockOf_subset hc' hc (hms.of_perm hperm) hperm.symm h⟩

end Catalog

/-! ## Comments without split pairs -/

namespace Text

/-- Without high surrogates there are no pairs. -/
theorem pairFree_of_not_isHigh {t : Text} (h : ∀ c ∈ t, c.isHigh = false) : t.PairFree := by
  induction t with
  | nil => exact .nil
  | cons c rest ih =>
    obtain ⟨hc, hrest⟩ := List.forall_mem_cons.mp h
    refine List.isChain_cons.mpr ⟨?_, ih hrest⟩
    rintro d - ⟨hhigh, -⟩
    rw [hc] at hhigh
    cases hhigh

/-- Two texts meet without making a pair if the first does not end with a high surrogate. -/
theorem PairFree.append_of_last {a b : Text} (ha : a.PairFree) (hb : b.PairFree)
    (h : ∀ c ∈ a.getLast?, c.isHigh = false) : PairFree (a ++ b) := by
  refine List.isChain_append.mpr ⟨ha, hb, ?_⟩
  rintro c hc d - ⟨hhigh, -⟩
  rw [h c hc] at hhigh
  cases hhigh

/-- Two texts meet without making a pair if the second does not start with a low surrogate. -/
theorem PairFree.append_of_head {a b : Text} (ha : a.PairFree) (hb : b.PairFree)
    (h : ∀ d ∈ b.head?, d.isLow = false) : PairFree (a ++ b) := by
  refine List.isChain_append.mpr ⟨ha, hb, ?_⟩
  rintro c - d hd ⟨-, hlow⟩
  rw [h d hd] at hlow
  cases hlow

theorem not_isHigh_ofChars {cs : List Char} : ∀ c ∈ ofChars cs, c.isHigh = false := by
  intro c hc
  obtain ⟨ch, -, rfl⟩ := List.mem_map.mp hc
  exact (CodePoint.not_half_of_not_isSurrogate (CodePoint.isSurrogate_ofChar ch)).1

theorem mem_of_mem_strip {t : Text} {c : CodePoint} (h : c ∈ t.strip) : c ∈ t :=
  (Placeholder.isInfix_strip t).mem h

end Text

/-- The lines of a comment are cut out of it. -/
theorem Comment.mem_of_mem_lines {comment line : Text} {c : CodePoint} (h : line ∈ lines comment)
    (hc : c ∈ line) : c ∈ comment := by
  unfold lines at h
  dsimp only at h
  split at h
  · obtain ⟨hline, -⟩ := List.mem_filter.mp h
    rw [List.mem_singleton.mp hline] at hc
    exact List.mem_of_mem_drop (Text.mem_of_mem_strip hc)
  · obtain ⟨hline, -⟩ := List.mem_filter.mp h
    obtain ⟨whole, hwhole, rfl⟩ := List.mem_map.mp hline
    have hmem : c ∈ whole :=
      Text.mem_of_mem_strip (List.dropWhile_subset _ (Text.mem_of_mem_strip hc))
    rcases Text.mem_of_mem_linesFrom hwhole hmem with hnone | ⟨hinside, -⟩
    · cases hnone
    · split at hinside
      · exact List.mem_of_mem_drop (List.mem_of_mem_take hinside)
      · exact hinside

theorem Script.Lower.not_isHigh_of_mem_leadingComments (trees : List Tree) :
    ∀ line ∈ leadingComments trees, ∀ c ∈ line, c.isHigh = false :=
  forall_leadingComments fun _ _ _ _ hline c hc => Text.not_isHigh_ofChars c (Comment.mem_of_mem_lines hline hc)

namespace Placeholder

theorem isInfix_note (inside : Text) : note inside <:+: inside :=
  (isInfix_strip _).trans ((List.drop_suffix _ _).trans (List.dropWhile_suffix _)).isInfix

/-- The comment for a note is pair-free if the part that has it is. -/
theorem pairFree_comment? {part : Part} {c : Text} (hpart : part.source.PairFree)
    (h : part.comment? = some c) : c.PairFree := by
  cases part with
  | plain d => cases h
  | placeholder inside =>
    have hinside : inside.PairFree := hpart.of_isInfix ⟨[.ofChar '{'], [.ofChar '}'], rfl⟩
    rw [Part.comment?] at h
    split at h
    · cases h
    · cases h
      -- blanks stand where the name and the note meet the rest
      have hname : Text.PairFree (("#. " : Text) ++ name inside) :=
        Text.PairFree.append_of_last (by decide) (hinside.of_isInfix (isInfix_name inside)) (by decide)
      have hmiddle : Text.PairFree (("#. " : Text) ++ name inside ++ (" - " : Text)) :=
        hname.append_of_head (by decide) (by decide)
      refine hmiddle.append_of_last (hinside.of_isInfix (isInfix_note inside)) ?_
      intro d hd
      rw [List.getLast?_append] at hd
      cases hd
      rfl

theorem pairFree_comments_decode {t : Text} (ht : t.PairFree) {comments : List Text}
    (hcomments : ∀ c ∈ comments, c.PairFree) : ∀ c ∈ (decode t comments).2, c.PairFree := by
  intro c hc
  rcases List.mem_append.mp hc with hold | hnote
  · exact hcomments c hold
  · obtain ⟨part, hpart, hcomment⟩ := List.mem_filterMap.mp hnote
    refine pairFree_comment? (ht.of_isInfix ?_) hcomment
    -- what a part is cut from stands in the text
    rw [← flatMap_source_parts t, List.flatMap_def]
    exact List.infix_of_mem_flatten (List.mem_map_of_mem hpart)

theorem pairFree_comments_decodeAll {ts : List Text} (hts : ∀ t ∈ ts, t.PairFree) {comments : List Text}
    (hcomments : ∀ c ∈ comments, c.PairFree) : ∀ c ∈ (decodeAll ts comments).2, c.PairFree := by
  induction ts generalizing comments with
  | nil => exact hcomments
  | cons t ts ih =>
    obtain ⟨hfirst, hothers⟩ := List.forall_mem_cons.mp hts
    exact ih hothers (pairFree_comments_decode hfirst hcomments)

end Placeholder

/-- Decoding the placeholders of a message keeps its comments without split pairs: those it adds are cut from
the texts of the payload. -/
theorem Message.pairFree_notes_decoded {m : Message} (hpayload : m.payload.PairFree)
    (hnotes : ∀ c ∈ m.notes, c.PairFree) : ∀ c ∈ m.decoded.notes, c.PairFree := by
  obtain ⟨hlocation, hcomments⟩ := List.forall_mem_cons.mp hnotes
  unfold decoded
  split
  -- one text
  · next t ht =>
    rw [ht] at hpayload
    exact List.forall_mem_cons.mpr
      ⟨hlocation, Placeholder.pairFree_comments_decode (hpayload t .text) hcomments⟩
  -- a singular and a plural, both texts
  · next items hitems =>
    split
    · next ts hts =>
      rw [hitems] at hpayload
      have hfree : ∀ t ∈ ts, t.PairFree :=
        fun t ht => hpayload t (.tuple (Placeholder.mem_of_texts? hts t ht) .text)
      exact List.forall_mem_cons.mpr
        ⟨hlocation, Placeholder.pairFree_comments_decodeAll hfree hcomments⟩
    · exact hnotes
  · exact hnotes

/-- A path holds no high surrogate. -/
theorem Path.Usable.not_isHigh {path : Text} (h : Usable path) : ∀ c ∈ path, c.isHigh = false := by
  intro c hc
  have hpathable := (h c hc).1
  rw [Bool.eq_false_iff, ne_eq, CodePoint.isHigh_iff]
  simp only [CodePoint.isUnpathable, CodePoint.isSurrogate, Bool.and_eq_false_iff, Bool.not_eq_false',
    Bool.and_eq_true, decide_eq_false_iff_not, decide_eq_true_eq] at hpathable
  omega

namespace Extraction

/-- **The comments of a message** have no split pairs. -/
theorem Site.pairFree_notes {s : Site} (horigin : Path.Usable s.origin) (hmade : s.Made) :
    ∀ c ∈ s.message.notes, c.PairFree := by
  refine Message.pairFree_notes_decoded (Marker.pairFree_payload hmade.arguments) ?_
  refine List.forall_mem_cons.mpr ⟨?_, ?_⟩
  -- the place: its path is usable, and all else in it is ASCII
  · refine Text.pairFree_of_not_isHigh fun c hc => ?_
    simp only [raw, Marker.location, List.mem_append] at hc
    rcases hc with ((hmark | hpath) | hcolon) | hline
    · exact (by decide : ∀ c ∈ ("#: " : Text), c.isHigh = false) c hmark
    · exact horigin.not_isHigh c hpath
    · exact (by decide : ∀ c ∈ (":" : Text), c.isHigh = false) c hcolon
    · exact Text.not_isHigh_ofChars c hline
  -- the translator comments: their lines are read from characters, none of which is a surrogate
  · intro comment hcomment
    obtain ⟨line, hline, rfl⟩ := List.mem_map.mp hcomment
    refine Text.pairFree_of_not_isHigh fun c hc => ?_
    rcases List.mem_append.mp hc with hmark | hc
    · exact (by decide : ∀ c ∈ ("#. " : Text), c.isHigh = false) c hmark
    · have hhigh := hmade.call.forall_comments fun trees _ => Script.Lower.not_isHigh_of_mem_leadingComments trees
      exact hhigh line hline c hc

end Extraction

/-! ## Directories that list their names in another order -/

/-- Two looks at a path that differ at most in the order of the names that a directory lists. -/
inductive Look.Reorders : Except Fault Look → Except Fault Look → Prop
  | fault (fault : Fault) : Reorders (.error fault) (.error fault)
  | file : Reorders (.ok .file) (.ok .file)
  | directory {names names' : List Text} (h : names.Perm names') :
      Reorders (.ok (.directory names)) (.ok (.directory names'))

/-- Two disks with the same files, whose directories list the same names. -/
structure Disk.Reorders (disk disk' : Disk) : Prop where
  look : ∀ path, Look.Reorders (disk.look path) (disk'.look path)
  read : disk'.read = disk.read

theorem Disk.Reorders.listsUsable {disk disk' : Disk} (h : disk.Reorders disk') (hdisk : disk.ListsUsable) :
    disk'.ListsUsable := by
  intro path names' hlook name hname
  have hsame := h.look path
  rw [hlook] at hsame
  generalize hlook' : disk.look path = look at hsame
  cases hsame with
  | directory hperm => exact hdisk path _ hlook' name (hperm.mem_iff.mpr hname)

/-- **Walks** meet the same things in both. -/
theorem Walk.visits_perm {disk disk' : Disk} (h : disk.Reorders disk') (registered : Text → Bool)
    (depth : Nat) (path : Text) :
    (visits disk registered depth path).Perm (visits disk' registered depth path) := by
  induction depth generalizing path with
  | zero => exact .refl _
  | succ depth ih =>
    have hsame := h.look path
    rw [visits, visits]
    generalize disk.look path = look at hsame ⊢
    generalize disk'.look path = look' at hsame ⊢
    cases hsame with
    | fault fault => exact .refl _
    | file => exact .refl _
    | @directory names names' hperm =>
      -- the same names in another order, and below each the same visits in another order
      exact hperm.flatMap fun name _ => ih (Path.join path name)

namespace Extraction

theorem usable_of_mem_files {x : Extraction} {disk : Disk} (hdisk : disk.ListsUsable) {depth : Nat} {root : Text}
    (hroot : Path.Usable root) {file : ReadFile} (hfile : file ∈ x.files disk depth root) :
    Path.Usable file.path :=
  Walk.usable_of_found hdisk hroot (mem_filterMap_readable?.mp hfile).1

theorem files_perm {disk disk' : Disk} (h : disk.Reorders disk') (x : Extraction) (depth : Nat) (root : Text) :
    (x.files disk depth root).Perm (x.files disk' depth root) := by
  have hreadable : readable? disk' = readable? disk := by
    funext visit
    cases visit <;> simp only [readable?, readSource, h.read]
  rw [files, files, hreadable]
  exact (Walk.visits_perm h x.registry.covers depth root).filterMap _

/-- An extraction whose files can all be parsed and whose messages can all be translated writes the blocks
of a catalog that holds these messages. -/
theorem run_blocks {x : Extraction} (hx : x.failFast = false) {disk : Disk} (hdisk : disk.ListsUsable)
    {path : Text} (hroot : Path.Usable (Path.normalize path)) {depth : Nat}
    (hparsed : ∀ f ∈ x.files disk depth (Path.normalize path), ∃ tree, x.parse f = .ok tree)
    (hvalid : ∀ s ∈ (x.files disk depth (Path.normalize path)).flatMap x.calls,
      s.message.payload.Translatable) :
    ∃ c : Catalog,
      c.Holds (((x.files disk depth (Path.normalize path)).flatMap x.calls).map Site.message) ∧
      (x.run disk depth path).output =
        Template.header ++ ((c.entries.map Catalog.blockOf).map Prod.snd).flatten ∧
      (x.run disk depth path).halt = none := by
  obtain ⟨c, hholds, houtput, hhalt⟩ :=
    run_of_parsed hx hdisk (Path.check_eq_ok_iff.mpr hroot) hparsed
  -- entries hold payloads of the messages, so that none is left out of the text
  have htranslatable : ∀ e ∈ c.entries, e.payload.Translatable :=
    hholds.translatable (List.forall_mem_map.mpr hvalid)
  have hwrite := (Catalog.writtenAs_of_translatable htranslatable).text
  refine ⟨c, hholds, ?_, ?_⟩
  · rw [houtput, hwrite]
  · rw [hhalt, hwrite]
    rfl

/-- **The order does not matter.** Let the same messages be added to two catalogs in different orders. If
they can all be translated, messages with the same identity have the same payload, and no comment has a
high surrogate directly before a low one, then both catalogs are written whole, with the same block for
each key; only the order of the blocks may differ.

Hence two extractions from the same files, whose directories list the same names in different orders, write
the same blocks behind the header, as long as the files can be parsed, their messages can be translated and
messages with the same identity have the same payload: their comments have no such pairs. -/
theorem blocks_of_reordered :
    (∀ ms ms' : List Message, ms.Perm ms' → Message.Consistent ms →
      ∃ blocks blocks' : List (Key × Text),
        blocks.Perm blocks' ∧ (blocks.map Prod.fst).Nodup ∧
        (Catalog.empty.addAll ms).WrittenAs blocks ∧ (Catalog.empty.addAll ms').WrittenAs blocks') ∧
    ∀ (markers : List Marker) (registry : Registry) (disk disk' : Disk) (depth : Nat) (path : Text),
      disk.ListsUsable → disk.Reorders disk' → Path.Usable (Path.normalize path) →
      let x : Extraction := { markers, registry }
      let files := x.files disk depth (Path.normalize path)
      let messages := (files.flatMap x.calls).map Site.message
      (∀ f ∈ files, ∃ tree, x.parse f = .ok tree) →
      (∀ m ∈ messages, m.payload.Translatable) →
      (∀ m ∈ messages, ∀ m' ∈ messages,
        m.payload.identity? = m'.payload.identity? → m.payload = m'.payload) →
      (x.run disk depth path).halt = none ∧ (x.run disk' depth path).halt = none ∧
      ∃ blocks blocks' : List (Key × Text),
        blocks.Perm blocks' ∧ (blocks.map Prod.fst).Nodup ∧
        (x.run disk depth path).output = Template.header ++ (blocks.map Prod.snd).flatten ∧
        (x.run disk' depth path).output = Template.header ++ (blocks'.map Prod.snd).flatten := by
  have hkeys : ∀ {c : Catalog} {ms : List Message}, c.Holds ms →
      ((c.entries.map Catalog.blockOf).map Prod.fst).Nodup := by
    intro c ms hc
    rw [List.map_map]
    exact hc.nodup_keys
  constructor
  · intro ms ms' hperm hms
    have hholds := Catalog.holds_addAll_empty ms
    have hholds' := Catalog.holds_addAll_empty ms'
    exact ⟨_, _, Catalog.perm_blockOf hholds hholds' hms hperm, hkeys hholds,
      Catalog.writtenAs_of_translatable (hholds.translatable hms.valid),
      Catalog.writtenAs_of_translatable (hholds'.translatable (hms.of_perm hperm).valid)⟩
  · intro markers registry disk disk' depth path hdisk hreorders hroot x files messages hparsed hvalid hpayload
    have hfiles : files.Perm (x.files disk' depth (Path.normalize path)) := files_perm hreorders x depth _
    have hcalls := hfiles.flatMap_right x.calls
    have hsites : ∀ s ∈ files.flatMap x.calls, s.message.payload.Translatable :=
      fun s hs => hvalid s.message (List.mem_map_of_mem hs)
    obtain ⟨c, hholds, houtput, hhalt⟩ := run_blocks (x := x) rfl hdisk hroot hparsed hsites
    obtain ⟨c', hholds', houtput', hhalt'⟩ :=
      run_blocks (x := x) rfl (hreorders.listsUsable hdisk) hroot
        (fun f hf => hparsed f (hfiles.mem_iff.mpr hf))
        (fun s hs => hsites s (hcalls.mem_iff.mpr hs))
    have hconsistent : Message.Consistent messages := by
      refine ⟨hvalid, hpayload, ?_⟩
      intro m hm
      obtain ⟨s, hs, rfl⟩ := List.mem_map.mp hm
      obtain ⟨f, hf, hs⟩ := List.mem_flatMap.mp hs
      obtain ⟨horigin, hmade⟩ := made_of_mem_calls hs
      -- the origin is the path of a file that was found
      have husable : Path.Usable s.origin := by
        rw [horigin]
        exact usable_of_mem_files hdisk hroot hf
      exact s.pairFree_notes husable hmade
    exact ⟨hhalt, hhalt', _, _, Catalog.perm_blockOf hholds hholds' hconsistent (hcalls.map _), hkeys hholds,
      houtput, houtput'⟩

/-- A disk whose directories list their names from the last one to the first. -/
def backwards (disk : Disk) : Disk where
  look path :=
    match disk.look path with
    | .ok (.directory names) => .ok (.directory names.reverse)
    | look => look
  read := disk.read

theorem reorders_backwards (disk : Disk) : disk.Reorders (backwards disk) := by
  refine ⟨fun path => ?_, rfl⟩
  simp only [backwards]
  cases disk.look path with
  | error fault => exact .fault fault
  | ok look =>
    cases look with
    | file => exact .file
    | directory names => exact .directory names.reverse_perm.symm

/-- Three calls, two of them for the same text. -/
def greetings : List Message := [
  { location := "#: a.js:1", comments := ["#. at the door"], payload := .text "Hello", origin := "a.js" },
  { location := "#: a.js:2", comments := [], payload := .tuple [.text "a day", .text "days"], origin := "a.js" },
  { location := "#: b.js:1", comments := [], payload := .text "Hello", origin := "b.js" }]

/-- The greetings, by the three payloads that occur in them: all can be translated, and any two with one
identity have one payload. -/
theorem consistent_greetings : Message.Consistent greetings := by
  have htexts : greetings.map Message.payload =
      [.text "Hello", .tuple [.text "a day", .text "days"], .text "Hello"] := rfl
  refine ⟨?_, ?_, by decide⟩
  · intro m hm
    have hpayload := List.mem_map_of_mem (f := Message.payload) hm
    rw [htexts] at hpayload
    simp only [List.mem_cons, List.not_mem_nil, or_false] at hpayload
    rcases hpayload with h | h | h <;> rw [h]
    · exact .singular _
    · exact .plural _ _
    · exact .singular _
  · intro m hm m' hm' hidentity
    have hpayload := List.mem_map_of_mem (f := Message.payload) hm
    have hpayload' := List.mem_map_of_mem (f := Message.payload) hm'
    rw [htexts] at hpayload hpayload'
    simp only [List.mem_cons, List.not_mem_nil, or_false] at hpayload hpayload'
    rcases hpayload with h | h | h <;> rcases hpayload' with h' | h' | h' <;> rw [h, h'] at hidentity ⊢ <;>
      exact absurd hidentity (by decide)

/-- Two scripts with a text in common. -/
def sharedGreeting : FileSystem where
  items := [
    (["src"], .directory),
    (["src", "a.js"], .file ("__('Hello');".toList.flatMap Utf8.encodeChar)),
    (["src", "b.js"], .file ("__('Bye'); __('Hello');".toList.flatMap Utf8.encodeChar))]

/-- Three greetings in both orders, and a directory with a greeting in two files that is listed forwards and
backwards: the outputs differ, and their blocks are the same. -/
theorem blocks_of_reordered_greetings :
    let x : Extraction := { markers := [["__"]] }
    let run := fun disk => x.run disk (Walk.enough sharedGreeting) "src"
    (∃ blocks blocks',
      blocks.Perm blocks' ∧ (Catalog.empty.addAll greetings).WrittenAs blocks ∧
      (Catalog.empty.addAll greetings.reverse).WrittenAs blocks') ∧
    (run sharedGreeting.disk).output ≠ (run (backwards sharedGreeting.disk)).output ∧
    ∃ blocks blocks' : List (Key × Text),
      blocks.Perm blocks' ∧
      (run sharedGreeting.disk).output = Template.header ++ (blocks.map Prod.snd).flatten ∧
      (run (backwards sharedGreeting.disk)).output = Template.header ++ (blocks'.map Prod.snd).flatten := by
  intro x run
  have hdisk : sharedGreeting.disk.ListsUsable := FileSystem.listsUsable_disk (by decide +kernel)
  -- every file can be parsed, and every payload in it is one text; both are computed at once
  have hfacts :
      (x.files sharedGreeting.disk (Walk.enough sharedGreeting) (Path.normalize "src")).all (fun f =>
        (x.parse f).isOk && (x.calls f).all fun s => s.message.payload.text?.isSome) = true ∧
      (run sharedGreeting.disk).output ≠ (run (backwards sharedGreeting.disk)).output := by
    decide +kernel
  obtain ⟨hall, hdifferent⟩ := hfacts
  simp only [List.all_eq_true, Bool.and_eq_true] at hall
  -- the messages by themselves
  obtain ⟨blocks, blocks', hperm, -, hblocks, hblocks'⟩ :=
    blocks_of_reordered.1 greetings greetings.reverse greetings.reverse_perm.symm consistent_greetings
  have htext : ∀ m ∈ ((x.files sharedGreeting.disk (Walk.enough sharedGreeting) (Path.normalize "src")).flatMap
      x.calls).map Site.message, ∃ t, m.payload = .text t := by
    intro m hm
    obtain ⟨s, hs, rfl⟩ := List.mem_map.mp hm
    obtain ⟨f, hf, hs⟩ := List.mem_flatMap.mp hs
    have hsome := (hall f hf).2 s hs
    cases hpayload : s.message.payload with
    | text t => exact ⟨t, rfl⟩
    | _ =>
      rw [hpayload] at hsome
      cases hsome
  -- the two runs
  obtain ⟨-, -, hrun⟩ :=
    blocks_of_reordered.2 [["__"]] Registry.standard sharedGreeting.disk (backwards sharedGreeting.disk)
      (Walk.enough sharedGreeting) "src" hdisk (reorders_backwards _) (by decide)
      (fun f hf => isOk_iff.mp (hall f hf).1)
      (fun m hm => by
        obtain ⟨t, ht⟩ := htext m hm
        rw [ht]
        exact .singular t)
      (fun m hm m' hm' hidentity => by
        obtain ⟨t, ht⟩ := htext m hm
        obtain ⟨t', ht'⟩ := htext m' hm'
        rw [ht, ht'] at hidentity ⊢
        rw [Option.some.inj hidentity])
  obtain ⟨written, written', hwritten, -, houtput, houtput'⟩ := hrun
  exact ⟨⟨blocks, blocks', hperm, hblocks, hblocks'⟩, hdifferent, written, written', hwritten, houtput, houtput'⟩

end Extraction

end Phrasebook
