import Phrasebook.Proofs.Payload
import Phrasebook.Proofs.Quoting

/-!
# Phrasebook — reading templates back

A reader for templates, and the proof that it undoes the writer. The reader works from the outside in:
line feeds divide a template into lines, empty lines divide the lines into blocks, and in a block the
comments come first, then the strings. Nothing in a text can be mistaken for this structure, because a
quoted string holds neither a line feed nor a bare quote.

* `Template.read?` — the comments and payloads of a template;
* `Template.read?_header_append_write` — reading what was written gives back the comments, with
  surrogates as escapes, and the payloads; hence templates with different payloads differ, and a template
  has no surrogates.
-/

namespace Phrasebook.Template

/-! ## The reader -/

/-- The parts of a text between its line feeds. -/
def linesOf (text : Text) : List Text := text.splitOnP (·.is '\n')

/-- The lines between empty lines. -/
def blocksOf (lines : List Text) : List (List Text) :=
  (lines.splitOnP List.isEmpty).filter (!·.isEmpty)

/-- The text of a quoted string that makes up a line together with a label. -/
def readString? (label line : Text) : Option Text :=
  if (label ++ [CodePoint.ofChar '\x22']).isPrefixOf line then
    let rest := line.drop (label.length + 1)
    if rest.getLast?.any (·.is '\x22') then (Escape.values (Escape.pieces rest.dropLast)).toOption
    else none
  else none

/-- The payload that lines stand for: two for a text, four for a pair. -/
def readPayload? : List Text → Option Value
  | [one, empty] =>
    if empty = "msgstr \"\"" then (readString? "msgid " one).map .text else none
  | [one, many, first, second] =>
    if first = "msgstr[0] \"\"" ∧ second = "msgstr[1] \"\"" then do
      let singular ← readString? "msgid " one
      let plural ← readString? "msgid_plural " many
      return .tuple [.text singular, .text plural]
    else none
  | _ => none

/-- A line that is a comment. -/
def isComment (line : Text) : Bool := line.head?.any (·.is '#')

/-- The comments and the payload of a block. -/
def readBlock? (lines : List Text) : Option (List Text × Value) :=
  (readPayload? (lines.dropWhile isComment)).map (lines.takeWhile isComment, ·)

/-- The lines of the header. -/
def headerLines : List Text :=
  ["msgid \"\"", "msgstr \"\"", "\"Content-Type: text/plain; charset=UTF-8\\n\""]

/-- The comments and payloads of a template. -/
def read? (text : Text) : Option (List (List Text × Value)) :=
  match blocksOf (linesOf text) with
  | [] => none
  | first :: blocks => if first = headerLines then blocks.mapM readBlock? else none

/-! ## Lines and blocks -/

/-- No code point of a line ends it. -/
def OneLine (line : Text) : Prop := ∀ c ∈ line, c.is '\n' = false

/-- Every code point of a text can be encoded. -/
def Encodable (text : Text) : Prop := ∀ c ∈ text, c.isSurrogate = false

instance (line : Text) : Decidable (OneLine line) :=
  inferInstanceAs (Decidable (∀ c ∈ line, c.is '\n' = false))

instance (text : Text) : Decidable (Encodable text) :=
  inferInstanceAs (Decidable (∀ c ∈ text, c.isSurrogate = false))

theorem oneLine_iff {line : Text} : OneLine line ↔ .ofChar '\n' ∉ line := Text.forall_is_eq_false_iff

theorem not_lineFeed_of_le {c : CodePoint} (h : 0x20 ≤ c.val) : c.is '\n' = false := by
  rw [CodePoint.is, beq_eq_false_iff_ne]
  intro heq
  rw [heq] at h
  exact absurd h (by decide)

@[simp] theorem oneLine_quote (t : Text) : OneLine (quote t) :=
  fun _ hc => not_lineFeed_of_le (mem_quote hc).1

theorem oneLine_append {a b : Text} (ha : OneLine a) (hb : OneLine b) : OneLine (a ++ b) :=
  fun c hc => (List.mem_append.mp hc).elim (ha c) (hb c)

theorem encodable_append {a b : Text} (ha : Encodable a) (hb : Encodable b) : Encodable (a ++ b) :=
  fun c hc => (List.mem_append.mp hc).elim (ha c) (hb c)

@[simp] theorem encodable_quote (t : Text) : Encodable (quote t) := fun _ hc => (mem_quote hc).2

@[simp] theorem encodable_escapeSurrogates (t : Text) : Encodable (escapeSurrogates t) := by
  intro c hc
  rcases mem_escapeSurrogates hc with ⟨-, hsurrogate⟩ | ⟨-, hlow⟩
  · exact hsurrogate
  · exact not_isSurrogate_of_lt (by omega)

theorem oneLine_escapeSurrogates {t : Text} (h : OneLine t) : OneLine (escapeSurrogates t) := by
  intro c hc
  rcases mem_escapeSurrogates hc with ⟨hmem, -⟩ | ⟨hlow, -⟩
  · exact h c hmem
  · exact not_lineFeed_of_le hlow

/-- Lines that are written one after the other are read one after the other. -/
theorem linesOf_joinLines {lines : List Text} (h : ∀ line ∈ lines, OneLine line) (rest : Text) :
    linesOf (joinLines lines ++ rest) = lines ++ linesOf rest := by
  induction lines with
  | nil => rfl
  | cons line lines ih =>
    obtain ⟨hline, hlines⟩ := List.forall_mem_cons.mp h
    have hcut : joinLines (line :: lines) ++ rest =
        line ++ .ofChar '\n' :: (joinLines lines ++ rest) := by
      rw [joinLines, List.flatMap_cons, List.append_assoc, List.append_assoc]
      rfl
    rw [hcut, linesOf, List.splitOnP_append_cons_of_forall_mem hline _ (by rfl)]
    exact congrArg (line :: ·) (ih hlines)

/-- An empty line ends a block. -/
theorem blocksOf_append {block : List Text} (hne : block ≠ []) (h : ∀ line ∈ block, line ≠ [])
    (rest : List Text) : blocksOf (block ++ [] :: rest) = block :: blocksOf rest := by
  have hlines : ∀ line ∈ block, line.isEmpty = false :=
    fun line hline => List.isEmpty_eq_false_iff.mpr (h line hline)
  rw [blocksOf, List.splitOnP_append_cons_of_forall_mem hlines _ (by rfl), List.filter_cons,
    if_pos (by simpa using hne)]
  rfl

/-! ## One string -/

/-- **A string is read back** from the line on which it stands behind its label. -/
theorem readString?_quote (label t : Text) : readString? label (label ++ quote t) = some t := by
  -- the label and the opening quote, then the escaped text and the closing quote
  have hline : label ++ quote t =
      (label ++ [.ofChar '\x22']) ++ (t.flatMap quotedCodePoint ++ [.ofChar '\x22']) := by
    simp only [quote, List.append_assoc]
  have hprefix : (label ++ [CodePoint.ofChar '\x22']).isPrefixOf (label ++ quote t) = true := by
    rw [hline, List.isPrefixOf_iff_prefix]
    exact List.prefix_append _ _
  have hdrop : (label ++ quote t).drop (label.length + 1) =
      t.flatMap quotedCodePoint ++ [.ofChar '\x22'] := by
    rw [hline]
    exact List.drop_left' (by simp)
  rw [readString?, if_pos hprefix, hdrop]
  simp only [List.getLast?_concat, Option.any_some, List.dropLast_concat]
  rw [if_pos (by rfl), values_pieces_quoted]
  rfl

/-! ## One entry -/

/-- What a template can hold: a payload that can be translated, and comments that start with `#` and
stay on their lines. -/
structure Presentable (e : Entry) : Prop where
  payload  : e.payload.Translatable
  comments : ∀ c ∈ e.comments, c.head? = some (.ofChar '#') ∧ .ofChar '\n' ∉ c

/-- The lines of the block of an entry. -/
def entryLines (e : Entry) : List Text :=
  e.comments.map escapeSurrogates ++ (body? e.payload).getD []

theorem block_of_translatable {e : Entry} (h : e.payload.Translatable) :
    block e = .ok (joinLines (entryLines e ++ [[]])) := by
  obtain ⟨body, hbody⟩ := Option.isSome_iff_exists.mp (body?_isSome_iff.mpr h)
  have hblank : joinLines (entryLines e ++ [[]]) = joinLines (entryLines e) ++ ("\n" : Text) := by
    rw [joinLines, List.flatMap_append]
    rfl
  rw [block, block?, hblank, entryLines, hbody]
  rfl

theorem isComment_of_head? {c : Text} (h : c.head? = some (.ofChar '#')) : isComment c = true := by
  rw [isComment, h]
  rfl

theorem head?_escapeSurrogates {c : Text} (h : c.head? = some (.ofChar '#')) :
    (escapeSurrogates c).head? = some (.ofChar '#') := by
  cases c with
  | nil => cases h
  | cons d rest =>
    simp only [List.head?_cons, Option.some.injEq] at h
    subst h
    rfl

/-- A line of a payload: no reader takes it for a comment, for the end of a line or for the end of a
block, and it can be encoded. -/
structure PayloadLine (line : Text) : Prop where
  oneLine   : OneLine line
  ne_nil    : line ≠ []
  noComment : isComment line = false
  encodable : Encodable line

/-- A string behind a label makes a line like the label. -/
theorem PayloadLine.append_quote {label : Text} (h : PayloadLine label) (t : Text) :
    PayloadLine (label ++ quote t) := by
  refine ⟨oneLine_append h.oneLine (oneLine_quote t), ?_, ?_,
    encodable_append h.encodable (encodable_quote t)⟩
  · exact fun hnil => h.ne_nil (List.append_eq_nil_iff.mp hnil).1
  · -- the first code point of the line is that of the label
    obtain ⟨c, rest, rfl⟩ := List.exists_cons_of_ne_nil h.ne_nil
    exact h.noComment

theorem payloadLine_msgid : PayloadLine "msgid " := ⟨by decide, by decide, rfl, by decide⟩

theorem payloadLine_msgid_plural : PayloadLine "msgid_plural " := ⟨by decide, by decide, rfl, by decide⟩

/-- The lines behind the comments of an entry that can be written are lines of a payload: one text takes two
lines, a singular and a plural take four. -/
theorem body?_payloadLine {v : Value} (h : v.Translatable) :
    ∀ line ∈ (body? v).getD [], PayloadLine line := by
  cases h with
  | singular t =>
    intro line hline
    simp only [body?, Option.getD_some, List.mem_cons, List.not_mem_nil, or_false] at hline
    rcases hline with rfl | rfl
    · exact payloadLine_msgid.append_quote t
    · exact ⟨by decide, by decide, rfl, by decide⟩
  | plural one many =>
    intro line hline
    simp only [body?, Value.plural?, Option.map_some, Option.getD_some, List.mem_cons,
      List.not_mem_nil, or_false] at hline
    rcases hline with rfl | rfl | rfl | rfl
    · exact payloadLine_msgid.append_quote one
    · exact payloadLine_msgid_plural.append_quote many
    · exact ⟨by decide, by decide, rfl, by decide⟩
    · exact ⟨by decide, by decide, rfl, by decide⟩

/-- **A payload is read back** from its lines, a text as a text and a pair as a pair. -/
theorem readPayload?_body? {v : Value} (h : v.Translatable) :
    readPayload? ((body? v).getD []) = some v := by
  cases h with
  | singular t =>
    simp only [body?, Option.getD_some, readPayload?, if_true]
    rw [readString?_quote]
    rfl
  | plural one many =>
    simp only [body?, Value.plural?, Option.map_some, Option.getD_some, readPayload?, and_self,
      if_true]
    rw [readString?_quote, readString?_quote]
    rfl

theorem entryLines_oneLine {e : Entry} (h : Presentable e) : ∀ line ∈ entryLines e, OneLine line := by
  intro line hline
  rcases List.mem_append.mp hline with hcomment | hbody
  · obtain ⟨c, hc, rfl⟩ := List.mem_map.mp hcomment
    exact oneLine_escapeSurrogates (oneLine_iff.mpr (h.comments c hc).2)
  · exact (body?_payloadLine h.payload line hbody).oneLine

theorem entryLines_ne_nil {e : Entry} (h : Presentable e) : ∀ line ∈ entryLines e, line ≠ [] := by
  intro line hline
  rcases List.mem_append.mp hline with hcomment | hbody
  · obtain ⟨c, hc, rfl⟩ := List.mem_map.mp hcomment
    have hhead := head?_escapeSurrogates (h.comments c hc).1
    intro hnil
    rw [hnil] at hhead
    cases hhead
  · exact (body?_payloadLine h.payload line hbody).ne_nil

theorem entryLines_encodable {e : Entry} (h : e.payload.Translatable) :
    ∀ line ∈ entryLines e, Encodable line := by
  intro line hline
  rcases List.mem_append.mp hline with hcomment | hbody
  · obtain ⟨c, -, rfl⟩ := List.mem_map.mp hcomment
    exact encodable_escapeSurrogates c
  · exact (body?_payloadLine h line hbody).encodable

/-- **A block is read back**: the comments are the lines that start with `#`. -/
theorem readBlock?_entryLines {e : Entry} (h : Presentable e) :
    readBlock? (entryLines e) = some (e.comments.map escapeSurrogates, e.payload) := by
  have hcomments : ∀ line ∈ e.comments.map escapeSurrogates, isComment line = true := by
    intro line hline
    obtain ⟨c, hc, rfl⟩ := List.mem_map.mp hline
    exact isComment_of_head? (head?_escapeSurrogates (h.comments c hc).1)
  have hbody := body?_payloadLine h.payload
  have hread := readPayload?_body? h.payload
  -- the first line of a payload is no comment, so that the comments end there
  generalize hlines : (body? e.payload).getD [] = body at hbody hread
  have htake : body.takeWhile isComment = [] := by
    cases body with
    | nil => rfl
    | cons line rest =>
      rw [List.takeWhile_cons, (hbody line List.mem_cons_self).noComment, if_neg Bool.false_ne_true]
  have hdrop : body.dropWhile isComment = body := by
    cases body with
    | nil => rfl
    | cons line rest =>
      rw [List.dropWhile_cons, (hbody line List.mem_cons_self).noComment, if_neg Bool.false_ne_true]
  rw [readBlock?, entryLines, hlines, List.dropWhile_append_of_pos hcomments,
    List.takeWhile_append_of_pos hcomments, htake, hdrop, hread, List.append_nil]
  rfl

/-! ## A whole template -/

/-- All lines behind the header, with the empty lines that end the blocks. -/
def allLines (es : List Entry) : List Text := es.flatMap fun e => entryLines e ++ [[]]

theorem joinLines_append (a b : List Text) : joinLines (a ++ b) = joinLines a ++ joinLines b :=
  List.flatMap_append

theorem write_of_translatable {es : List Entry} (h : ∀ e ∈ es, e.payload.Translatable) :
    write es = { text := joinLines (allLines es), error := none } := by
  induction es with
  | nil => rfl
  | cons e es ih =>
    obtain ⟨he, hes⟩ := List.forall_mem_cons.mp h
    rw [write, block_of_translatable he, ih hes]
    simp only [allLines, List.flatMap_cons, joinLines_append]

/-- What holds of the lines of every entry and of the empty line holds of all lines. -/
theorem forall_mem_allLines {P : Text → Prop} {es : List Entry} (hempty : P [])
    (h : ∀ e ∈ es, ∀ line ∈ entryLines e, P line) : ∀ line ∈ allLines es, P line := by
  intro line hline
  obtain ⟨e, he, hline⟩ := List.mem_flatMap.mp hline
  rcases List.mem_append.mp hline with hentry | hlast
  · exact h e he line hentry
  · rw [List.mem_singleton.mp hlast]
    exact hempty

theorem encodable_joinLines {lines : List Text} (h : ∀ line ∈ lines, Encodable line) :
    Encodable (joinLines lines) := by
  intro c hc
  obtain ⟨line, hline, hc⟩ := List.mem_flatMap.mp hc
  exact encodable_append (h line hline) (by decide) c hc

theorem header_eq : header = joinLines (headerLines ++ [[]]) := by decide +kernel

theorem headerLines_oneLine : ∀ line ∈ headerLines ++ [[]], OneLine line := by decide

/-- The lines of entries are cut into the entries again: no line of an entry is empty, and each is followed by
an empty one. -/
theorem blocksOf_allLines {es : List Entry} (h : ∀ e ∈ es, Presentable e) :
    blocksOf (allLines es ++ [[]]) = es.map entryLines := by
  induction es with
  | nil => rfl
  | cons e es ih =>
    obtain ⟨he, hes⟩ := List.forall_mem_cons.mp h
    have hne : entryLines e ≠ [] := by
      -- no payload is read from no lines
      intro hnil
      have hbody := readBlock?_entryLines he
      rw [hnil] at hbody
      cases hbody
    rw [allLines, List.flatMap_cons, List.append_assoc, List.append_assoc, List.singleton_append,
      blocksOf_append hne (entryLines_ne_nil he)]
    exact congrArg (entryLines e :: ·) (ih hes)

/-- The header and the lines of entries that can be written, joined and cut into lines and blocks again, give
the comments and the payload of every entry. -/
theorem read?_joinLines_allLines {es : List Entry} (h : ∀ e ∈ es, Presentable e) :
    read? (header ++ joinLines (allLines es)) =
      some (es.map fun e => (e.comments.map escapeSurrogates, e.payload)) := by
  have hlines : linesOf (header ++ joinLines (allLines es)) =
      headerLines ++ [] :: (allLines es ++ [[]]) := by
    have hall : ∀ line ∈ (headerLines ++ [[]]) ++ allLines es, OneLine line := by
      intro line hline
      rcases List.mem_append.mp hline with hline | hline
      · exact headerLines_oneLine line hline
      · exact forall_mem_allLines (by decide) (fun e he => entryLines_oneLine (h e he)) line hline
    have hjoin := linesOf_joinLines hall []
    rw [joinLines_append, ← header_eq, List.append_nil] at hjoin
    rw [hjoin, List.append_assoc, List.append_assoc]
    rfl
  have hblocks : (es.map entryLines).mapM readBlock? =
      some (es.map fun e => (e.comments.map escapeSurrogates, e.payload)) := by
    -- block by block, whatever stands in front of the first
    clear hlines
    induction es with
    | nil => rfl
    | cons e es ih =>
      obtain ⟨he, hes⟩ := List.forall_mem_cons.mp h
      rw [List.map_cons, List.mapM_cons, readBlock?_entryLines he, ih hes]
      rfl
  rw [read?, hlines, blocksOf_append (by decide) (by decide), blocksOf_allLines h]
  simp only [if_true]
  exact hblocks

/-- **A template can be read back.** Entries whose payloads can be translated and whose comments start
with `#` and stay on their lines are all written, and the reader returns their comments, with surrogates
as escapes, and their payloads, texts and pairs apart, in the order of the entries. So two lists of
entries that differ in their payloads are never written as the same text. Nothing that is written is a
surrogate. -/
theorem read?_header_append_write (es : List Entry) (h : ∀ e ∈ es, Presentable e) :
    (write es).error = none ∧
    read? (header ++ (write es).text) =
      some (es.map fun e => (e.comments.map escapeSurrogates, e.payload)) ∧
    (∀ c ∈ header ++ (write es).text, c.isSurrogate = false) ∧
    ∀ others : List Entry, (∀ e ∈ others, Presentable e) →
      header ++ (write others).text = header ++ (write es).text →
      others.map Entry.payload = es.map Entry.payload := by
  have hpayload : ∀ {es : List Entry}, (∀ e ∈ es, Presentable e) →
      ∀ e ∈ es, e.payload.Translatable := fun h e he => (h e he).payload
  rw [write_of_translatable (hpayload h)]
  refine ⟨rfl, read?_joinLines_allLines h, ?_, ?_⟩
  · have hlines := forall_mem_allLines (by decide) fun e he => entryLines_encodable (hpayload h e he)
    exact encodable_append (by decide) (encodable_joinLines hlines)
  · intro others hothers htext
    rw [write_of_translatable (hpayload hothers)] at htext
    -- both lists are what the reader returns for the one text
    have hread := read?_joinLines_allLines hothers
    rw [htext, read?_joinLines_allLines h, Option.some.injEq] at hread
    have hpayloads := congrArg (List.map Prod.snd) hread
    simp only [List.map_map] at hpayloads
    exact hpayloads.symm

/-- Entries whose texts look like parts of a template, and hold half of a surrogate pair. -/
def lookalikes : List Entry := [
  { key := .text "\"\nmsgstr \"\"\n\n# \\"
    comments := ["#: a.js:1", "#. msgid \"\""]
    payload := .text "\"\nmsgstr \"\"\n\n# \\"
    origin := "a.js" },
  { key := .text "\\n|"
    comments := [("#. " : Text) ++ [⟨0xDC00, by decide⟩]]
    payload := .tuple [.text "\\n", .text [⟨0xD800, by decide⟩]]
    origin := "b.js" }]

/-- The entries are read back; half of a pair in a comment has become an escape. -/
theorem read?_header_append_write_lookalikes :
    (∀ e ∈ lookalikes, Presentable e) ∧
    read? (header ++ (write lookalikes).text) = some ([
      (["#: a.js:1", "#. msgid \"\""], .text "\"\nmsgstr \"\"\n\n# \\"),
      (["#. \\udc00"], .tuple [.text "\\n", .text [⟨0xD800, by decide⟩]])] :
        List (List Text × Value)) := by
  have h : ∀ e ∈ lookalikes, Presentable e := by
    intro e he
    rw [lookalikes, List.mem_cons, List.mem_singleton] at he
    rcases he with rfl | rfl
    · exact ⟨.singular _, by decide⟩
    · exact ⟨.plural _ _, by decide⟩
  refine ⟨h, ?_⟩
  rw [(read?_header_append_write lookalikes h).2.1]
  rfl

end Phrasebook.Template
