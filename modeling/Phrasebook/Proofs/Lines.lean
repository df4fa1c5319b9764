import Phrasebook.Proofs.Provenance
import Phrasebook.Proofs.Reading
import Phrasebook.Proofs.SurrogatePairs

/-!
# Phrasebook — the lines of a template

Every line of a template should be told by its start: a comment, a string behind its label, a line of the
header, or an empty line. Strings keep to their lines because line feeds are escaped in them. Comments are
written as they are, so all depends on where they come from. The place of a call and the comments of a
source stand on one line each: paths without line feeds are joined to paths without line feeds, a comment
to the end of its line ends there, and a block is cut into its lines. The note of a placeholder is copied
out of the value of a literal, in which `\n` has become a line feed. Nothing cuts it into lines, so that
whatever follows a line feed in a note stands on a line of its own in the template.

Main results:

* `Extraction.remark_or_note` — where the comments of a catalog come from, and which ones stand on one line;
* `Extraction.lines_of_run` — the lines of the template of an extraction;
* `Extraction.lines_of_run_brokenNote` — a note that breaks them.
-/

namespace Phrasebook

open Template (OneLine oneLine_iff)

/-! ## Comments of sources -/

namespace Text

theorem oneLine_strip {t : Text} (h : OneLine t) : OneLine t.strip :=
  fun c hc => h c ((Placeholder.isInfix_strip t).mem hc)

/-- What stands on a line stood on the open line, or in the text behind it and ends no line. -/
theorem mem_of_mem_linesFrom {current t line : Text} {afterReturn : Bool} {c : CodePoint}
    (h : line ∈ linesFrom current afterReturn t) (hc : c ∈ line) :
    c ∈ current ∨ c ∈ t ∧ c.isLineBreak = false := by
  induction t generalizing current afterReturn with
  | nil =>
    rw [linesFrom] at h
    split at h
    · cases h
    · rw [List.mem_singleton.mp h, List.mem_reverse] at hc
      exact .inl hc
  | cons d rest ih =>
    -- behind a break there is no open line
    have hrest : ∀ {after : Bool}, line ∈ linesFrom [] after rest → c ∈ d :: rest ∧ c.isLineBreak = false := by
      intro after hline
      rcases ih hline with hnone | ⟨hmem, hbreak⟩
      · cases hnone
      · exact ⟨List.mem_cons_of_mem _ hmem, hbreak⟩
    rw [linesFrom] at h
    split at h
    · exact .inr (hrest h)
    · split at h
      · rcases List.mem_cons.mp h with rfl | h
        · exact .inl (List.mem_reverse.mp hc)
        · exact .inr (hrest h)
      · next hbreak =>
        rcases ih h with hcurrent | ⟨hmem, hbreak⟩
        · rcases List.mem_cons.mp hcurrent with rfl | hcurrent
          · exact .inr ⟨List.mem_cons_self, Bool.eq_false_iff.mpr hbreak⟩
          · exact .inl hcurrent
        · exact .inr ⟨List.mem_cons_of_mem _ hmem, hbreak⟩

/-- No code point of a line ends it. -/
theorem not_isLineBreak_of_mem_lines {t line : Text} (h : line ∈ lines t) :
    ∀ c ∈ line, c.isLineBreak = false := by
  intro c hc
  rcases mem_of_mem_linesFrom h hc with hnone | ⟨-, hbreak⟩
  · cases hnone
  · exact hbreak

theorem oneLine_of_not_isLineBreak {t : Text} (h : ∀ c ∈ t, c.isLineBreak = false) : OneLine t := by
  rw [oneLine_iff]
  intro hfeed
  -- a line feed ends a line
  exact absurd (h _ hfeed) (by decide)

end Text

/-- The lines of a comment hold no line feed: a block is cut at its line breaks, and a comment of the other form
has none to begin with. -/
theorem Comment.oneLine_of_mem_lines {comment line : Text}
    (hcomment : ("//" : Text).isPrefixOf comment = true → OneLine comment)
    (h : line ∈ lines comment) : OneLine line := by
  unfold lines at h
  dsimp only at h
  split at h
  · next hslashes =>
    obtain ⟨hline, -⟩ := List.mem_filter.mp h
    rw [List.mem_singleton.mp hline]
    exact Text.oneLine_strip fun c hc => hcomment hslashes c (List.mem_of_mem_drop hc)
  · obtain ⟨hline, -⟩ := List.mem_filter.mp h
    obtain ⟨whole, hwhole, rfl⟩ := List.mem_map.mp hline
    have hone := Text.oneLine_of_not_isLineBreak (Text.not_isLineBreak_of_mem_lines hwhole)
    refine Text.oneLine_strip fun c hc => ?_
    exact Text.oneLine_strip hone c (List.dropWhile_subset _ hc)

theorem CodePoint.ofChar_injective : Function.Injective ofChar := by
  intro a b h
  exact Char.toNat_inj.mp (congrArg val h)

theorem Text.oneLine_ofChars {cs : List Char} (h : '\n' ∉ cs) : OneLine (ofChars cs) := by
  rw [oneLine_iff]
  intro hfeed
  exact h ((List.mem_map_of_injective CodePoint.ofChar_injective).mp hfeed)

theorem Script.Lower.oneLine_of_mem_leadingComments {trees : List Tree} (htrees : Tree.AllTidy trees) :
    ∀ line ∈ leadingComments trees, OneLine line := by
  refine forall_leadingComments fun t ht hkind line hline => ?_
  refine Comment.oneLine_of_mem_lines ?_ hline
  -- a comment that starts with two slashes ends with its line
  intro hslashes
  have hprefix : ['/', '/'] <+: t.spelling :=
    (List.prefix_map_iff_of_injective CodePoint.ofChar_injective).mp (List.isPrefixOf_iff_prefix.mp hslashes)
  exact Text.oneLine_ofChars ((htrees t ht t (Tree.self_mem_preorder t)).oneLine hkind hprefix)

/-! ## Comments of messages -/

/-- The comment for the note of a placeholder. -/
def Placeholder.IsNote (c : Text) : Prop := ∃ part : Part, part.comment? = some c

/-- A comment on one line, for a place or for translators. -/
def Template.IsRemark (c : Text) : Prop := OneLine c ∧ (("#: " : Text) <+: c ∨ ("#. " : Text) <+: c)

open Placeholder (IsNote)
open Template (IsRemark)

/-- A note from a placeholder starts with the mark of translator comments. -/
theorem Placeholder.IsNote.isPrefix {c : Text} (h : IsNote c) : ("#. " : Text) <+: c := by
  obtain ⟨part, hpart⟩ := h
  cases part with
  | plain d => cases hpart
  | placeholder inside =>
    rw [Part.comment?] at hpart
    split at hpart
    · cases hpart
    · cases hpart
      rw [List.append_assoc, List.append_assoc]
      exact List.prefix_append _ _

theorem Placeholder.mem_comments_decode {t c : Text} {comments : List Text}
    (h : c ∈ (decode t comments).2) : c ∈ comments ∨ IsNote c := by
  rcases List.mem_append.mp h with hold | hnote
  · exact .inl hold
  · obtain ⟨part, -, hpart⟩ := List.mem_filterMap.mp hnote
    exact .inr ⟨part, hpart⟩

theorem Placeholder.mem_comments_decodeAll {ts : List Text} {c : Text} {comments : List Text}
    (h : c ∈ (decodeAll ts comments).2) : c ∈ comments ∨ IsNote c := by
  induction ts generalizing comments with
  | nil => exact .inl h
  | cons t ts ih =>
    rcases ih h with hold | hnote
    · exact mem_comments_decode hold
    · exact .inr hnote

/-- Decoding appends notes to the comments of a message, and nothing else. -/
theorem Message.mem_comments_decoded {m : Message} {c : Text} (h : c ∈ m.decoded.comments) :
    c ∈ m.comments ∨ IsNote c := by
  unfold decoded at h
  split at h
  · exact Placeholder.mem_comments_decode h
  · split at h
    · exact Placeholder.mem_comments_decodeAll h
    · exact .inl h
  · exact .inl h

/-- Decoding placeholders does not move a message. -/
theorem Message.place_decoded (m : Message) :
    m.decoded.origin = m.origin ∧ m.decoded.location = m.location := by
  unfold decoded
  split
  · exact ⟨rfl, rfl⟩
  · split <;> exact ⟨rfl, rfl⟩
  · exact ⟨rfl, rfl⟩

theorem Message.mem_notes_decoded {m : Message} {c : Text} (h : c ∈ m.decoded.notes) :
    c ∈ m.notes ∨ IsNote c := by
  rcases List.mem_cons.mp h with hlocation | hcomment
  · exact .inl (List.mem_cons.mpr (.inl (hlocation.trans m.place_decoded.2)))
  · exact (mem_comments_decoded hcomment).imp_left (List.mem_cons_of_mem _)

namespace Extraction

/-- The place of a message is one line with the mark of comments. -/
theorem isRemark_location {origin : Text} (horigin : OneLine origin) (line : Nat) :
    IsRemark (Marker.location origin line) := by
  have hnumber : OneLine (Text.ofNat line) := by
    refine Text.oneLine_ofChars fun hmem => ?_
    exact absurd (Nat.isDigit_of_mem_toDigits (by decide) (by decide) hmem) (by decide)
  refine ⟨?_, .inl ?_⟩
  · refine Template.oneLine_append (Template.oneLine_append (Template.oneLine_append ?_ horigin) ?_) hnumber
    · decide
    · decide
  · rw [Marker.location, List.append_assoc, List.append_assoc]
    exact List.prefix_append _ _

/-- **The comments of a message.** All that are not the note of a placeholder stand on one line. -/
theorem Site.remark_or_note {s : Site} (horigin : OneLine s.origin) (hmade : s.Made) :
    ∀ c ∈ s.message.notes, IsRemark c ∨ IsNote c := by
  intro c hc
  rcases Message.mem_notes_decoded hc with hraw | hnote
  · left
    rcases List.mem_cons.mp hraw with rfl | hcomment
    · exact isRemark_location horigin _
    · obtain ⟨line, hline, rfl⟩ := List.mem_map.mp hcomment
      have hone : OneLine line :=
        hmade.call.forall_comments (fun _ => Script.Lower.oneLine_of_mem_leadingComments) line hline
      exact ⟨Template.oneLine_append (by decide) hone, .inr (List.prefix_append _ _)⟩
  · exact .inr hnote

/-- **The comments of a catalog.** Merging sorts them, but changes none. -/
theorem remark_or_note {x : Extraction} {disk : Disk} {depth : Nat} {path : Text} (hdisk : disk.Lists OneLine)
    (hpath : OneLine path) :
    ∀ e ∈ (x.run disk depth path).catalog.entries, ∀ c ∈ e.comments, IsRemark c ∨ IsNote c := by
  rw [catalog_run]
  refine forall_comments_collect fun file hfile s hs => ?_
  obtain ⟨hfound, -⟩ := mem_filterMap_readable?.mp hfile
  obtain ⟨horigin, hmade⟩ := made_of_mem_calls hs
  refine s.remark_or_note ?_ hmade
  -- the origin of a message is a path below the root
  have hroot : OneLine (Path.normalize path) := Path.forall_mem_normalize (by decide) (by decide) hpath
  rw [horigin]
  exact Walk.forall_mem_of_found (by decide) hdisk hroot hfound

end Extraction

/-! ## Lines of texts -/

namespace Template

theorem linesOf_of_oneLine {t : Text} (h : OneLine t) : linesOf t = [t] := List.splitOnP_eq_singleton h

/-- The lines of texts that are written one after the other, whether they are on one line each or not. -/
theorem linesOf_joinLines_eq_flatMap (ts : List Text) (rest : Text) :
    linesOf (joinLines ts ++ rest) = ts.flatMap linesOf ++ linesOf rest := by
  induction ts with
  | nil => rfl
  | cons t ts ih =>
    have hcut : joinLines (t :: ts) ++ rest = t ++ .ofChar '\n' :: (joinLines ts ++ rest) := by
      rw [joinLines, List.flatMap_cons, List.append_assoc, List.append_assoc]
      rfl
    rw [hcut, linesOf, List.splitOnP_append_cons _ _ (by rfl), List.flatMap_cons, List.append_assoc, ← ih]
    rfl

/-- The first line of a comment starts like the comment. -/
theorem linesOf_comment (rest : Text) :
    ∃ first, linesOf (.ofChar '#' :: rest) = (.ofChar '#' :: first) :: (linesOf rest).tail := by
  rw [linesOf, List.splitOnP_cons_eq_if_modifyHead, if_neg (by decide)]
  cases hlines : linesOf rest with
  | nil => exact absurd hlines (List.splitOnP_ne_nil _ _)
  | cons first others =>
    refine ⟨first, ?_⟩
    rw [linesOf] at hlines
    rw [hlines]
    rfl

/-! ## The structure of a template -/

/-- What stands before the strings of a template. -/
def labels : List Text := ["msgid ", "msgid_plural ", "msgstr ", "msgstr[0] ", "msgstr[1] "]

/-- A line that a reader of templates can tell: an empty one, a comment, a line of the header, or a string
behind its label. -/
def isStructural (line : Text) : Bool :=
  line.isEmpty || isComment line || headerLines.contains line ||
    labels.any fun label =>
      (label ++ [CodePoint.ofChar '\x22']).isPrefixOf line && line.getLast? == some (.ofChar '\x22')

theorem isStructural_of_isComment {line : Text} (h : isComment line = true) : isStructural line = true := by
  rw [isStructural, h]
  simp

/-- A label with a quoted text behind it is a line of the template, whatever the text is. -/
theorem isStructural_quote {label : Text} (hlabel : label ∈ labels) (t : Text) :
    isStructural (label ++ quote t) = true := by
  have hquote : label ++ quote t =
      (label ++ [.ofChar '\x22']) ++ (t.flatMap quotedCodePoint ++ [.ofChar '\x22']) := by
    simp only [quote, List.append_assoc]
  have hlast : (label ++ quote t).getLast? = some (.ofChar '\x22') := by
    rw [hquote, ← List.append_assoc]
    exact List.getLast?_concat
  have hstart : (label ++ [CodePoint.ofChar '\x22']).isPrefixOf (label ++ quote t) = true := by
    rw [hquote, List.isPrefixOf_iff_prefix]
    exact List.prefix_append _ _
  rw [isStructural, Bool.or_eq_true]
  right
  rw [List.any_eq_true]
  exact ⟨label, hlabel, by rw [hstart, hlast]; rfl⟩

/-- The lines of a body start with a word of the format. -/
theorem isStructural_body? {v : Value} (h : v.Translatable) :
    ∀ line ∈ (body? v).getD [], isStructural line = true := by
  cases h with
  | singular t =>
    intro line hline
    simp only [body?, Option.getD_some, List.mem_cons, List.not_mem_nil, or_false] at hline
    -- two lines for a text, four for a pair
    rcases hline with rfl | rfl
    · exact isStructural_quote (by decide) t
    · decide
  | plural one many =>
    intro line hline
    simp only [body?, Value.plural?, Option.map_some, Option.getD_some, List.mem_cons, List.not_mem_nil,
      or_false] at hline
    rcases hline with rfl | rfl | rfl | rfl
    · exact isStructural_quote (by decide) one
    · exact isStructural_quote (by decide) many
    · decide
    · decide

/-- A line that a note leaves in a template: one behind a line feed in the comment for it. -/
def LeftBy (es : List Entry) (line : Text) : Prop :=
  ∃ e ∈ es, ∃ c ∈ e.comments, IsNote c ∧ line ∈ (linesOf (escapeSurrogates c)).tail

/-- The lines of a comment, of which only later ones can be out of place. -/
theorem lines_of_comment {es : List Entry} {e : Entry} (he : e ∈ es) {c : Text} (hc : c ∈ e.comments)
    (h : IsRemark c ∨ IsNote c) :
    ∀ line ∈ linesOf (escapeSurrogates c), isStructural line = true ∨ LeftBy es line := by
  have hhead : c.head? = some (.ofChar '#') := by
    rcases h with ⟨-, ⟨rest, rfl⟩ | ⟨rest, rfl⟩⟩ | hnote
    · rfl
    · rfl
    · obtain ⟨rest, rfl⟩ := hnote.isPrefix
      rfl
  obtain ⟨rest, hrest⟩ : ∃ rest, escapeSurrogates c = .ofChar '#' :: rest := by
    have hstart := head?_escapeSurrogates hhead
    cases hescaped : escapeSurrogates c with
    | nil =>
      rw [hescaped] at hstart
      cases hstart
    | cons d rest =>
      rw [hescaped] at hstart
      cases hstart
      exact ⟨rest, rfl⟩
  -- the first line is a comment like the whole; the others start with whatever follows a line feed
  obtain ⟨first, hlines⟩ := linesOf_comment rest
  rw [← hrest] at hlines
  intro line hline
  rw [hlines] at hline
  rcases List.mem_cons.mp hline with rfl | hlater
  · exact .inl (isStructural_of_isComment rfl)
  · rcases h with ⟨hone, -⟩ | hnote
    · -- a comment on one line has no later lines
      have hsingle := linesOf_of_oneLine (oneLine_escapeSurrogates hone)
      rw [hlines, List.cons.injEq] at hsingle
      rw [hsingle.2] at hlater
      cases hlater
    · refine .inr ⟨e, he, c, hc, hnote, ?_⟩
      rw [hlines]
      exact hlater

/-- What is written of entries is the lines of some of them, all of which can be translated. -/
theorem exists_text_write (es : List Entry) :
    ∃ written, written ⊆ es ∧ (∀ e ∈ written, e.payload.Translatable) ∧
      (write es).text = joinLines (allLines written) := by
  induction es with
  | nil => exact ⟨[], List.Subset.refl _, by simp, rfl⟩
  | cons e es ih =>
    -- writing stops at the first entry that cannot be translated
    by_cases he : e.payload.Translatable
    · obtain ⟨written, hsub, hwritten, htext⟩ := ih
      refine ⟨e :: written, List.cons_subset_cons e hsub, List.forall_mem_cons.mpr ⟨he, hwritten⟩, ?_⟩
      rw [write, block_of_translatable he]
      simp only [htext, allLines, List.flatMap_cons, joinLines_append]
    · refine ⟨[], List.nil_subset _, by simp, ?_⟩
      rw [write_of_not_translatable he]
      rfl

/-- **The lines of a template**, whatever was written of the entries. -/
theorem lines_of_written {es : List Entry} (hes : ∀ e ∈ es, ∀ c ∈ e.comments, IsRemark c ∨ IsNote c) :
    ∀ line ∈ linesOf (header ++ (write es).text), isStructural line = true ∨ LeftBy es line := by
  obtain ⟨written, hsub, hwritten, htext⟩ := exists_text_write es
  have hheader : ∀ line ∈ headerLines ++ [[]], isStructural line = true := by decide
  intro line hline
  rw [htext, header_eq, ← joinLines_append, ← List.append_nil (joinLines _),
    linesOf_joinLines_eq_flatMap, List.mem_append, List.mem_flatMap] at hline
  rcases hline with ⟨whole, hwhole, hline⟩ | hlast
  · rcases List.mem_append.mp hwhole with hwhole | hwhole
    · -- the lines of the header
      rw [linesOf_of_oneLine (headerLines_oneLine whole hwhole), List.mem_singleton] at hline
      rw [hline]
      exact .inl (hheader whole hwhole)
    · obtain ⟨e, he, hwhole⟩ := List.mem_flatMap.mp hwhole
      rcases List.mem_append.mp hwhole with hentry | hempty
      · rcases List.mem_append.mp hentry with hcomment | hbody
        · obtain ⟨c, hc, rfl⟩ := List.mem_map.mp hcomment
          exact lines_of_comment (hsub he) hc (hes e (hsub he) c hc) line hline
        · rw [linesOf_of_oneLine (body?_payloadLine (hwritten e he) whole hbody).oneLine,
            List.mem_singleton] at hline
          rw [hline]
          exact .inl (isStructural_body? (hwritten e he) whole hbody)
      · rw [List.mem_singleton.mp hempty] at hline
        rw [List.mem_singleton.mp hline]
        exact .inl rfl
  · rw [List.mem_singleton.mp hlast]
    exact .inl rfl

end Template

/-! ## Extractions -/

namespace Extraction

open Template (LeftBy linesOf isStructural)

/-- An extraction that ends early writes the header only. -/
theorem output_run (x : Extraction) (disk : Disk) (depth : Nat) (path : Text) :
    (x.run disk depth path).output = Template.header ∨
    (x.run disk depth path).output =
      Template.header ++ (Template.write (x.run disk depth path).catalog.entries).text := by
  rw [run]
  dsimp only
  split
  · exact .inl rfl
  · exact .inr rfl

/-- **The lines of a template.** Where paths hold no line feeds, every line that an extraction writes is
empty, or a comment, or a line of the header, or a string behind its label; the only other lines are those
that stand behind a line feed in the note of a placeholder. Every comment in the catalog stands on one line
and starts with `#: ` or `#. `, or is such a note. So if no note holds a line feed, all lines are in place. -/
theorem lines_of_run (x : Extraction) (disk : Disk) (depth : Nat) (path : Text) (hdisk : disk.Lists OneLine)
    (hpath : OneLine path) :
    (∀ line ∈ linesOf (x.run disk depth path).output,
      isStructural line = true ∨ LeftBy (x.run disk depth path).catalog.entries line) ∧
    (∀ e ∈ (x.run disk depth path).catalog.entries, ∀ c ∈ e.comments, IsRemark c ∨ IsNote c) ∧
    ((∀ e ∈ (x.run disk depth path).catalog.entries, ∀ c ∈ e.comments, IsNote c → OneLine c) →
      ∀ line ∈ linesOf (x.run disk depth path).output, isStructural line = true) := by
  have hcomments : ∀ e ∈ (x.run disk depth path).catalog.entries, ∀ c ∈ e.comments, IsRemark c ∨ IsNote c :=
    remark_or_note hdisk hpath
  have hlines : ∀ line ∈ linesOf (x.run disk depth path).output,
      isStructural line = true ∨ LeftBy (x.run disk depth path).catalog.entries line := by
    intro line hline
    rcases output_run x disk depth path with houtput | houtput
    · -- without entries there are no notes
      rw [houtput, ← List.append_nil Template.header] at hline
      rcases Template.lines_of_written (List.forall_mem_nil _) line hline with hstructural | ⟨e, he, -⟩
      · exact .inl hstructural
      · cases he
    · rw [houtput] at hline
      exact Template.lines_of_written hcomments line hline
  refine ⟨hlines, hcomments, ?_⟩
  intro hnotes line hline
  rcases hlines line hline with hstructural | ⟨e, he, c, hc, hnote, hlater⟩
  · exact hstructural
  · have hone := Template.oneLine_escapeSurrogates (hnotes e he c hc hnote)
    rw [Template.linesOf_of_oneLine hone] at hlater
    cases hlater

/-- A script with a comment on two lines and a placeholder whose note is on one. -/
def tidyNotes : FileSystem where
  items := [(["a.js"], .file ("__(/* x\n * y */ \"\x7ba#b\x7d\")".toList.flatMap Utf8.encodeChar))]

def tidyRun : Result := run { markers := [["__"]] } tidyNotes.disk (Walk.enough tidyNotes) "a.js"

/-- A run whose notes hold no line feed, on a script with places, remarks and a note. -/
theorem lines_of_run_tidyNotes :
    tidyNotes.disk.Lists OneLine ∧
    tidyRun.catalog.entries.map Entry.comments =
      ([["#: a.js:1", "#. x", "#. y", "#. a - b"]] : List (List Text)) ∧
    ∀ line ∈ linesOf tidyRun.output, isStructural line = true := by
  have hcomments : tidyRun.catalog.entries.map Entry.comments =
      ([["#: a.js:1", "#. x", "#. y", "#. a - b"]] : List (List Text)) := by
    decide +kernel
  have hdisk : tidyNotes.disk.Lists OneLine := FileSystem.lists_disk (by decide +kernel)
  -- no comment of the run breaks a line
  have hone : ∀ e ∈ tidyRun.catalog.entries, ∀ c ∈ e.comments, OneLine c := by
    intro e he
    have hall : ∀ cs ∈ tidyRun.catalog.entries.map Entry.comments, ∀ c ∈ cs, OneLine c := by
      rw [hcomments]
      decide
    exact hall e.comments (List.mem_map_of_mem he)
  refine ⟨hdisk, hcomments, ?_⟩
  unfold tidyRun at hone ⊢
  have hrun := lines_of_run { markers := [["__"]] } tidyNotes.disk (Walk.enough tidyNotes) "a.js" hdisk
    (by decide)
  exact hrun.2.2 fun e he c hc _ => hone e he c hc

/-- A script with a placeholder whose note has a line feed in it. -/
def brokenNote : FileSystem where
  items := [(["a.js"], .file ("__(\"\x7ba#b\\nc\x7d\")".toList.flatMap Utf8.encodeChar))]

def brokenRun : Result := run { markers := [["__"]] } brokenNote.disk (Walk.enough brokenNote) "a.js"

/-- The lines that come of it. -/
def brokenLines : List Text :=
  Template.headerLines ++ [[], "#: a.js:1", "#. a - b", "c", "msgid \"\x7ba\x7d\"", "msgstr \"\"", []]

/-- **A note that leaves its line.** Its second line stands between the comments and the strings of the
block, and is none of them. -/
theorem lines_of_run_brokenNote :
    brokenNote.disk.Lists OneLine ∧ OneLine ("a.js" : Text) ∧ brokenRun.halt = none ∧
    linesOf brokenRun.output = brokenLines ++ [[]] ∧ ("c" : Text) ∈ brokenLines ∧
    isStructural "c" = false := by
  have houtput : brokenRun.output = Template.joinLines brokenLines := by decide +kernel
  have hlines : ∀ line ∈ brokenLines, OneLine line := by decide
  refine ⟨FileSystem.lists_disk (by decide +kernel), by decide, by decide +kernel, ?_, by decide, by decide⟩
  rw [houtput, ← List.append_nil (Template.joinLines _), Template.linesOf_joinLines hlines]
  rfl

end Extraction

end Phrasebook
