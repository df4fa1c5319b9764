import Phrasebook.Proofs.Lines
import Phrasebook.Proofs.Placeholders

/-!
# Phrasebook — the words of a comment are kept

A comment reaches the translators line by line, and on the way it loses its delimiters, the blanks around
its lines, the stars at their left and the lines that end up empty. Three sets of code points take part:
those that end a line, the blanks, and the star. A line can end only at a blank, and nothing but blanks and
stars is ever dropped. So all the *ink* of a comment is kept: what is neither a blank nor a star stands on
the lines as it stood in the comment.

Main results:

* `Text.ink_strip`, `Text.ink_flatten_lines` — trimming a text and cutting it into lines keep its ink;
* `Comment.exists_of_mem_lines` — a line of a comment is what remains of a line between the delimiters;
* `Comment.words_of_lines` — the lines of a comment are clean, and have all its ink.
-/

namespace Phrasebook

/-! ## Ink -/

/-- A code point that trimming never drops. -/
def CodePoint.isInk (c : CodePoint) : Bool := !(c.isBlank || c.is '*')

theorem CodePoint.isInk_of_isBlank {c : CodePoint} (h : c.isBlank = true) : c.isInk = false := by
  simp [isInk, h]

theorem CodePoint.isInk_of_isStar {c : CodePoint} (h : c.is '*' = true) : c.isInk = false := by
  simp [isInk, h]

/-- A line ends at a blank only. -/
theorem CodePoint.isBlank_of_isLineBreak {c : CodePoint} (h : c.isLineBreak = true) : c.isBlank = true := by
  simp only [isLineBreak, Bool.or_eq_true, Bool.and_eq_true, decide_eq_true_eq, beq_iff_eq] at h
  simp only [isBlank, Bool.or_eq_true, Bool.and_eq_true, decide_eq_true_eq, beq_iff_eq]
  omega

namespace Text

/-- What of a text is neither a blank nor a star. -/
def ink (t : Text) : Text := t.filter CodePoint.isInk

@[simp] theorem ink_append (a b : Text) : ink (a ++ b) = ink a ++ ink b := List.filter_append ..

theorem ink_cons_of_not_isInk {c : CodePoint} (h : c.isInk = false) (t : Text) : ink (c :: t) = ink t :=
  List.filter_cons_of_neg (by simp [h])

@[simp] theorem ink_reverse (t : Text) : ink t.reverse = (ink t).reverse := List.filter_reverse

/-- Dropping what is no ink keeps the ink. -/
theorem ink_dropWhile {p : CodePoint → Bool} (h : ∀ c, p c = true → c.isInk = false) (t : Text) :
    ink (t.dropWhile p) = ink t := by
  have hdropped : ink (t.takeWhile p) = [] := by
    rw [ink, List.filter_eq_nil_iff]
    intro c hc
    exact ne_true_of_eq_false (h c (List.mem_takeWhile_imp hc))
  calc ink (t.dropWhile p)
    _ = ink (t.takeWhile p) ++ ink (t.dropWhile p) := by rw [hdropped, List.nil_append]
    _ = ink t := by rw [← ink_append, List.takeWhile_append_dropWhile]

/-- **Trimming keeps the ink.** -/
@[simp] theorem ink_strip (t : Text) : ink t.strip = ink t := by
  have hblank : ∀ c : CodePoint, c.isBlank = true → c.isInk = false := fun _ => CodePoint.isInk_of_isBlank
  simp [strip, dropEndWhile, ink_dropWhile hblank]

/-- The lines of a text have the ink of the open line and of the text. Behind a carriage return no line
is open. -/
theorem ink_flatten_linesFrom {current t : Text} {afterReturn : Bool}
    (h : afterReturn = true → current = []) :
    ink (linesFrom current afterReturn t).flatten = ink current.reverse ++ ink t := by
  induction t generalizing current afterReturn with
  | nil =>
    rw [linesFrom]
    split
    · next hempty =>
      rw [List.isEmpty_iff.mp hempty]
      rfl
    · simp [ink]
  | cons c rest ih =>
    have hnone : ∀ after : Bool, ink (linesFrom [] after rest).flatten = ink rest :=
      fun after => ih fun _ => rfl
    rw [linesFrom]
    split
    · next hfeed =>
      -- the line feed belongs to the break before it
      rw [Bool.and_eq_true] at hfeed
      have hink : c.isInk = false := by
        rw [CodePoint.is_iff.mp hfeed.2]
        rfl
      rw [h hfeed.1, hnone, ink_cons_of_not_isInk hink]
      rfl
    · split
      · next hbreak =>
        have hink := CodePoint.isInk_of_isBlank (CodePoint.isBlank_of_isLineBreak hbreak)
        simp [hnone, ink_cons_of_not_isInk hink]
      · -- the line goes on
        rw [ih (by simp), List.reverse_cons, ink_append, List.append_assoc, ← ink_append]
        rfl

/-- **Cutting a text into lines keeps its ink.** -/
theorem ink_flatten_lines (t : Text) : ink (lines t).flatten = ink t :=
  ink_flatten_linesFrom fun _ => rfl

theorem ink_flatten_map {f : Text → Text} (h : ∀ t, ink (f t) = ink t) (ts : List Text) :
    ink (ts.map f).flatten = ink ts.flatten := by
  induction ts with
  | nil => rfl
  | cons t ts ih => simp [h, ih]

end Text

/-! ## Comments -/

namespace Comment

/-- A comment reaches to the end of its line, or to its closing delimiter. -/
inductive Form where
  | note
  | block
deriving DecidableEq

/-- The comment with the given text between its delimiters. -/
def Form.around : Form → Text → Text
  | .note, inside => ("//" : Text) ++ inside
  | .block, inside => ("/*" : Text) ++ inside ++ ("*/" : Text)

/-- The lines between the delimiters, before they are trimmed. -/
def Form.wholeLines : Form → Text → List Text
  | .note, inside => [inside]
  | .block, inside => Text.lines inside

/-- How a line is trimmed. -/
def Form.trim : Form → Text → Text
  | .note, line => line.strip
  | .block, line => trimLine line

/-- The lines of a comment of either form are the lines between its marks, trimmed, without those that are empty
then. -/
theorem lines_around (form : Form) (inside : Text) :
    lines (form.around inside) = ((form.wholeLines inside).map form.trim).filter fun line => !line.isEmpty := by
  cases form with
  | note => rfl
  | block =>
    -- what stands between the delimiters is all but the first two and the last two code points
    have hlength : (Form.block.around inside).length - 4 = inside.length := by
      rw [Form.around, List.length_append, List.length_append]
      show 2 + inside.length + 2 - 4 = inside.length
      omega
    have hinside : ((Form.block.around inside).drop 2).take ((Form.block.around inside).length - 4) = inside := by
      rw [hlength]
      exact List.take_left
    have hnote : ("//" : Text).isPrefixOf (Form.block.around inside) = false := rfl
    have hblock : ("/*" : Text).isPrefixOf (Form.block.around inside) = true := rfl
    rw [lines, hnote, hblock, if_neg Bool.false_ne_true, if_pos rfl, hinside]
    rfl

/-- **The lines of a comment** are what remains of the lines between its delimiters. -/
theorem exists_of_mem_lines {form : Form} {inside line : Text} (h : line ∈ lines (form.around inside)) :
    line ≠ [] ∧ ∃ whole ∈ form.wholeLines inside, line = form.trim whole := by
  rw [lines_around] at h
  obtain ⟨hline, hne⟩ := List.mem_filter.mp h
  obtain ⟨whole, hwhole, rfl⟩ := List.mem_map.mp hline
  exact ⟨by simpa using hne, whole, hwhole, rfl⟩

theorem strip_trim (form : Form) (line : Text) : (form.trim line).strip = form.trim line := by
  cases form <;> exact Text.strip_strip _

theorem mem_of_mem_trim {form : Form} {line : Text} {c : CodePoint} (h : c ∈ form.trim line) : c ∈ line := by
  cases form with
  | note => exact (Placeholder.isInfix_strip line).mem h
  | block =>
    have hstars := (Placeholder.isInfix_strip _).mem h
    exact (Placeholder.isInfix_strip line).mem (List.dropWhile_subset _ hstars)

@[simp] theorem ink_trim (form : Form) (line : Text) : Text.ink (form.trim line) = Text.ink line := by
  cases form with
  | note => exact Text.ink_strip line
  | block =>
    show Text.ink (Text.strip (line.strip.dropWhile (·.is '*'))) = _
    simp [Text.ink_dropWhile fun _ => CodePoint.isInk_of_isStar]

theorem ink_wholeLines (form : Form) (inside : Text) :
    Text.ink (form.wholeLines inside).flatten = Text.ink inside := by
  cases form with
  | note => rw [Form.wholeLines, List.flatten_singleton]
  | block => exact Text.ink_flatten_lines inside

/-- **No word of a comment is lost.** No line of a comment is empty, has blanks at its ends, or holds a line
feed; a line of a block holds no other break either. What is neither a blank nor a star stands on the lines,
one after the other, as it stands between the delimiters. -/
theorem words_of_lines (form : Form) (inside : Text) (h : form = .note → ∀ c ∈ inside, c.is '\n' = false) :
    (∀ line ∈ lines (form.around inside), line ≠ [] ∧ line.strip = line ∧
      (∀ c ∈ line, c.is '\n' = false) ∧ (form = .block → ∀ c ∈ line, c.isLineBreak = false)) ∧
    (lines (form.around inside)).flatten.filter (fun c => !(c.isBlank || c.is '*')) =
      inside.filter fun c => !(c.isBlank || c.is '*') := by
  constructor
  · intro line hline
    obtain ⟨hne, whole, hwhole, rfl⟩ := exists_of_mem_lines hline
    refine ⟨hne, strip_trim form whole, ?_⟩
    cases form with
    | note =>
      -- a note is a single line, without a line feed by assumption
      rw [Form.wholeLines, List.mem_singleton] at hwhole
      rw [hwhole]
      exact ⟨fun c hc => h rfl c (mem_of_mem_trim hc), fun hform => by cases hform⟩
    | block =>
      -- the lines of a block are cut at every break
      have hbreaks : ∀ c ∈ Form.block.trim whole, c.isLineBreak = false :=
        fun c hc => Text.not_isLineBreak_of_mem_lines hwhole c (mem_of_mem_trim hc)
      exact ⟨Text.oneLine_of_not_isLineBreak hbreaks, fun _ => hbreaks⟩
  -- what stands on the lines is what is neither blank nor star: the ink
  · show Text.ink (lines (form.around inside)).flatten = Text.ink inside
    rw [lines_around, List.flatten_filter_not_isEmpty, Text.ink_flatten_map (ink_trim form), ink_wholeLines]

/-- A note between blanks, one of them a line separator. -/
theorem words_of_lines_note :
    let inside : Text := "\u2028 Shown * on \t"
    (∀ c ∈ inside, c.is '\n' = false) ∧ lines (Form.note.around inside) = ["Shown * on"] ∧
    (∀ line ∈ lines (Form.note.around inside), line ≠ [] ∧ line.strip = line) ∧
    (lines (Form.note.around inside)).flatten.filter (fun c => !(c.isBlank || c.is '*')) =
      inside.filter fun c => !(c.isBlank || c.is '*') := by
  intro inside
  have honeLine : ∀ c ∈ inside, c.is '\n' = false := by decide
  obtain ⟨hclean, hkept⟩ := words_of_lines .note inside fun _ => honeLine
  exact ⟨honeLine, by decide, fun line hline => ⟨(hclean line hline).1, (hclean line hline).2.1⟩, hkept⟩

end Comment

end Phrasebook
