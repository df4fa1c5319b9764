import Mathlib.Data.List.TakeWhile
import Phrasebook.Proofs.SurrogatePairs

/-!
# Phrasebook — where placeholders stand

The parts of a text are read from left to right, and how far a placeholder reaches decides where the next
one may start. This module says without a scan where the placeholders of a text stand. A placeholder can
start at an opening brace with a code point other than a closing brace behind it and a closing brace
later (`Placeholder.Opens`). A *cut* of a text takes the first such brace, goes on behind the closing brace
that belongs to it, and ends where there is none left (`Placeholder.Cut`). Every text has exactly one cut,
and decoding rewrites the placeholders of that cut and nothing else.

Rewriting may empty a placeholder, and an empty one is none. That this moves no other placeholder rests on
two facts: decoding changes neither what a text starts with nor whether it has a closing brace.

Main results:

* `Text.trims_iff` — what it is to have no blanks at the ends;
* `Placeholder.parts_induction` — induction along the parts of a text;
* `Placeholder.exists_cut`, `Placeholder.Cut.unique` — there is one cut;
* `Placeholder.decode_eq_of_cut`, `Placeholder.decode_at_placeholders` — decoding in terms of it;
* `Placeholder.decode_idempotent` — decoding twice is decoding once, for texts and for messages.
-/

namespace Phrasebook

/-! ## Blanks at the ends of a text -/

namespace Text

/-- `t.Trims s` says that `s` is what remains of `t` without the blanks at its two ends. -/
structure Trims (t s : Text) : Prop where
  around : ∃ front back, t = front ++ s ++ back ∧ (∀ c ∈ front, c.isBlank = true) ∧
    ∀ c ∈ back, c.isBlank = true
  first  : ∀ c ∈ s.head?, c.isBlank = false
  last   : ∀ c ∈ s.getLast?, c.isBlank = false

/-- The first code point that is not dropped fails the test. -/
theorem not_of_head?_dropWhile {p : CodePoint → Bool} {t : Text} {c : CodePoint}
    (h : c ∈ (t.dropWhile p).head?) : p c = false := by
  have hnot := List.head?_dropWhile_not p t
  rw [Option.mem_def.mp h] at hnot
  simpa using hnot

/-- What `strip` leaves has no blanks at its ends. -/
theorem trims_strip (t : Text) : t.Trims t.strip := by
  -- first the blanks in front are dropped, then those at the back of what is left
  let left := t.dropWhile CodePoint.isBlank
  have hfront : t.takeWhile CodePoint.isBlank ++ left = t := List.takeWhile_append_dropWhile
  have hback : t.strip ++ (left.reverse.takeWhile CodePoint.isBlank).reverse = left := by
    rw [strip, dropEndWhile, ← List.reverse_append, List.takeWhile_append_dropWhile, List.reverse_reverse]
  refine ⟨⟨t.takeWhile CodePoint.isBlank, (left.reverse.takeWhile CodePoint.isBlank).reverse, ?_, ?_, ?_⟩,
    ?_, ?_⟩
  · rw [List.append_assoc, hback, hfront]
  · exact fun c hc => List.mem_takeWhile_imp hc
  · exact fun c hc => List.mem_takeWhile_imp (List.mem_reverse.mp hc)
  · -- unless nothing is left, it starts with what was left in front
    intro c hc
    have hhead : c ∈ left.head? := by
      rw [← hback, List.head?_append, Option.mem_def.mp hc]
      rfl
    exact not_of_head?_dropWhile hhead
  · intro c hc
    rw [strip, dropEndWhile, List.getLast?_reverse] at hc
    exact not_of_head?_dropWhile hc

/-- **Without blanks at the ends.** There is one text that remains, and it is what `strip` gives. -/
theorem trims_iff {t s : Text} : t.Trims s ↔ s = t.strip := by
  constructor
  · rintro ⟨⟨front, back, rfl, hfront, hback⟩, hfirst, hlast⟩
    -- from the back, the blanks are dropped up to the last code point that is left
    have hdropBack : (s ++ back).reverse.dropWhile CodePoint.isBlank = s.reverse := by
      rw [List.reverse_append,
        List.dropWhile_append_of_pos fun c hc => hback c (List.mem_reverse.mp hc)]
      cases hs : s.reverse with
      | nil => rfl
      | cons c rest =>
        have hc := hlast c (by rw [← List.head?_reverse, hs]; rfl)
        rw [List.dropWhile_cons_of_neg (ne_true_of_eq_false hc)]
    rw [strip, List.append_assoc, List.dropWhile_append_of_pos hfront]
    -- from the front, up to the first one
    cases s with
    | nil =>
      have hnone : back.dropWhile CodePoint.isBlank = [] := List.dropWhile_eq_nil_iff.mpr hback
      rw [List.nil_append, hnone]
      rfl
    | cons c rest =>
      have hc := hfirst c rfl
      rw [List.cons_append, List.dropWhile_cons_of_neg (ne_true_of_eq_false hc),
        ← List.cons_append, dropEndWhile, hdropBack, List.reverse_reverse]
  · rintro rfl
    exact trims_strip t

/-- What has no blanks at its ends stays as it is. -/
@[simp] theorem strip_strip (t : Text) : t.strip.strip = t.strip := by
  obtain ⟨-, hfirst, hlast⟩ := trims_strip t
  have hself : t.strip.Trims t.strip := ⟨⟨[], [], by simp, by simp, by simp⟩, hfirst, hlast⟩
  exact (trims_iff.mp hself).symm

end Text

namespace Placeholder

/-! ## Names and notes -/

/-- What a placeholder gives: its name stands before the first `#`, or is all of it, and its note stands
behind the `#`, both without blanks at their ends. -/
inductive Gives : Text → Text → Text → Prop
  | name (inside name : Text) (hfree : .ofChar '#' ∉ inside) (hname : inside.Trims name) :
      Gives inside name []
  | note (before after name note : Text) (hfree : .ofChar '#' ∉ before) (hname : before.Trims name)
      (hnote : after.Trims note) : Gives (before ++ .ofChar '#' :: after) name note

/-- A text up to the first `ch` is all of it, if there is none. -/
theorem takeWhile_of_not_mem {ch : Char} {t : Text} (h : .ofChar ch ∉ t) :
    t.takeWhile (!·.is ch) = t :=
  List.takeWhile_eq_self_iff.mpr (Text.not_is_of_not_mem h)

theorem dropWhile_of_not_mem {ch : Char} {t : Text} (h : .ofChar ch ∉ t) :
    t.dropWhile (!·.is ch) = [] :=
  List.dropWhile_eq_nil_iff.mpr (Text.not_is_of_not_mem h)

/-- A text has a first `ch`, or none. -/
theorem not_mem_or_split (ch : Char) (t : Text) :
    .ofChar ch ∉ t ∨ ∃ before after, .ofChar ch ∉ before ∧ t = before ++ .ofChar ch :: after := by
  by_cases h : .ofChar ch ∈ t
  · obtain ⟨before, after, hsplit, hfree⟩ := List.eq_append_cons_of_mem h
    exact .inr ⟨before, after, hfree, hsplit⟩
  · exact .inl h

/-- The inside of a placeholder is cut at its first number sign, and both parts are stripped. -/
theorem gives_iff {inside n k : Text} : Gives inside n k ↔ n = name inside ∧ k = note inside := by
  constructor
  · intro h
    cases h with
    | name _ _ hfree hname =>
      rw [name, note, takeWhile_of_not_mem hfree, dropWhile_of_not_mem hfree]
      exact ⟨Text.trims_iff.mp hname, rfl⟩
    | note before after _ _ hfree hname hnote =>
      rw [name, note, Text.takeWhile_append_mark hfree, Text.dropWhile_append_mark hfree]
      exact ⟨Text.trims_iff.mp hname, Text.trims_iff.mp hnote⟩
  · rintro ⟨rfl, rfl⟩
    rcases not_mem_or_split '#' inside with hfree | ⟨before, after, hfree, rfl⟩
    · rw [name, note, takeWhile_of_not_mem hfree, dropWhile_of_not_mem hfree]
      exact .name _ _ hfree (Text.trims_strip _)
    · rw [name, note, Text.takeWhile_append_mark hfree, Text.dropWhile_append_mark hfree]
      exact .note _ _ _ _ hfree (Text.trims_strip _) (Text.trims_strip _)

/-! ## Where a placeholder can start -/

/-- An opening brace with a code point other than a closing brace behind it, and a closing brace later. -/
inductive Opens : Text → Prop
  | brace (first : CodePoint) (rest : Text) (hfirst : first ≠ .ofChar '}') (hclose : .ofChar '}' ∈ rest) :
      Opens (.ofChar '{' :: first :: rest)

/-- No placeholder can start within `t`, if `rest` comes behind it. -/
def Plain (t rest : Text) : Prop := ∀ u, u <:+ t → u ≠ [] → ¬ Opens (u ++ rest)

/-- A placeholder opens at a brace that is closed somewhere, and not at once. -/
theorem opens_cons_iff {c : CodePoint} {t : Text} :
    Opens (c :: t) ↔ c = .ofChar '{' ∧ t.head? ≠ some (.ofChar '}') ∧ .ofChar '}' ∈ t := by
  constructor
  · rintro ⟨first, rest, hfirst, hclose⟩
    refine ⟨rfl, ?_, List.mem_cons_of_mem _ hclose⟩
    rw [List.head?_cons, ne_eq, Option.some.injEq]
    exact hfirst
  · rintro ⟨rfl, hhead, hclose⟩
    cases t with
    | nil => cases hclose
    | cons first rest =>
      have hfirst : first ≠ .ofChar '}' := fun heq => hhead (by rw [heq]; rfl)
      rcases List.mem_cons.mp hclose with heq | hclose
      · exact absurd heq.symm hfirst
      · exact .brace first rest hfirst hclose

/-- The braces of a placeholder, and what stands between them. -/
theorem opens_iff_exists {t : Text} :
    Opens t ↔ ∃ inside rest, inside ≠ [] ∧ .ofChar '}' ∉ inside ∧
      t = .ofChar '{' :: (inside ++ .ofChar '}' :: rest) := by
  constructor
  · rintro ⟨first, rest, hfirst, hclose⟩
    obtain ⟨more, behind, rfl, hfree⟩ := List.eq_append_cons_of_mem hclose
    refine ⟨first :: more, behind, by simp, ?_, rfl⟩
    rw [List.mem_cons, not_or]
    exact ⟨Ne.symm hfirst, hfree⟩
  · rintro ⟨inside, rest, hne, hfree, rfl⟩
    cases inside with
    | nil => exact absurd rfl hne
    | cons first more =>
      rw [List.mem_cons, not_or] at hfree
      exact .brace first _ (Ne.symm hfree.1) (by simp)

/-! ## The parts of a text -/

theorem inside?_of_closed {inside : Text} (hne : inside ≠ []) (hfree : .ofChar '}' ∉ inside) (rest : Text) :
    inside? (inside ++ .ofChar '}' :: rest) = some inside := by
  have hempty : inside.isEmpty = false := List.isEmpty_eq_false_iff.mpr hne
  have hlength : (inside.length == (inside ++ CodePoint.ofChar '}' :: rest).length) = false := by
    rw [beq_eq_false_iff_ne, List.length_append, List.length_cons]
    omega
  simp only [inside?, Text.takeWhile_append_mark hfree, hempty, hlength, Bool.or_false, Bool.false_eq_true,
    if_false]

/-- A placeholder is one part. -/
theorem parts_placeholder {inside : Text} (hne : inside ≠ []) (hfree : .ofChar '}' ∉ inside) (rest : Text) :
    parts (.ofChar '{' :: (inside ++ .ofChar '}' :: rest)) = .placeholder inside :: parts rest := by
  have hskip : partsFrom (inside.length + 1) (inside ++ .ofChar '}' :: rest) = parts rest := by
    have happend := partsFrom_append (inside ++ [.ofChar '}']) rest
    rw [List.length_append, List.append_assoc] at happend
    exact happend
  have hopen : (CodePoint.ofChar '{').is '{' = true := rfl
  rw [parts, partsFrom, if_pos hopen, inside?_of_closed hne hfree]
  exact congrArg (Part.placeholder inside :: ·) hskip

/-- Where something stands between braces, the opening one can start a placeholder. -/
theorem opens_of_inside? {t inside : Text} (h : inside? t = some inside) : Opens (.ofChar '{' :: t) := by
  obtain ⟨rest, hrest⟩ := inside?_eq_some h
  refine opens_cons_iff.mpr ⟨rfl, ?_, by rw [hrest]; simp⟩
  -- with a closing brace right behind the opening one nothing would stand between them
  intro hhead
  obtain ⟨more, rfl⟩ := List.head?_eq_some_iff.mp hhead
  have hnone : CodePoint.ofChar '}' ∉ ([] : Text) := List.not_mem_nil
  have htake : (CodePoint.ofChar '}' :: more).takeWhile (!·.is '}') = [] :=
    Text.takeWhile_append_mark hnone more
  simp [inside?, htake] at h

/-- A code point at which no placeholder starts is one part. -/
theorem parts_plain {c : CodePoint} {t : Text} (h : ¬ Opens (c :: t)) :
    parts (c :: t) = .plain c :: parts t := by
  rw [parts, partsFrom]
  split
  · next hopen =>
    rw [CodePoint.is_iff] at hopen
    split
    · next inside hinside => exact absurd (hopen ▸ opens_of_inside? hinside) h
    · rfl
  · rfl

/-- **Induction along the parts of a text.** A text is empty, or starts with a code point at which no
placeholder starts, or with a placeholder. -/
theorem parts_induction {motive : Text → Prop} (nil : motive [])
    (plain : ∀ c t, ¬ Opens (c :: t) → motive t → motive (c :: t))
    (placeholder : ∀ inside rest, inside ≠ [] → .ofChar '}' ∉ inside → motive rest →
      motive (.ofChar '{' :: (inside ++ .ofChar '}' :: rest))) (t : Text) : motive t := by
  -- a placeholder takes several code points at once, so the induction is on the length
  induction hlength : t.length using Nat.strongRecOn generalizing t with
  | ind n ih =>
    subst hlength
    cases t with
    | nil => exact nil
    | cons c t =>
      by_cases h : Opens (c :: t)
      · obtain ⟨inside, rest, hne, hfree, hsplit⟩ := opens_iff_exists.mp h
        rw [hsplit]
        refine placeholder inside rest hne hfree (ih rest.length ?_ rest rfl)
        rw [hsplit, List.length_cons, List.length_append, List.length_cons]
        omega
      · exact plain c t h (ih t.length (by rw [List.length_cons]; omega) t rfl)

/-! ## Cuts -/

/-- The plain text before a placeholder, and the placeholder: what stands between its braces, its name and
its note. -/
structure Span where
  before : Text
  inside : Text
  name : Text
  note : Text

namespace Span

/-- What a span is cut from. -/
def source (s : Span) : Text :=
  s.before ++ (.ofChar '{' :: (s.inside ++ [.ofChar '}']))

/-- A span with the name alone between the braces. -/
def plainText (s : Span) : Text :=
  s.before ++ (.ofChar '{' :: (s.name ++ [.ofChar '}']))

/-- The comment for the note of a span, if it has one. -/
def comment? (s : Span) : Option Text :=
  if s.note = [] then none else some (("#. " : Text) ++ s.name ++ (" - " : Text) ++ s.note)

end Span

/-- `Cut t spans last` says that `t` consists of spans and a last plain text. Each span ends with a
placeholder that starts at the first brace behind the span before it at which one can start, and that
reaches to the first closing brace. In the last text none can start. -/
inductive Cut : Text → List Span → Text → Prop
  | last (t : Text) (hplain : Plain t []) : Cut t [] t
  | span (s : Span) (rest : Text) (spans : List Span) (last : Text) (hinside : s.inside ≠ [])
      (hfree : .ofChar '}' ∉ s.inside)
      (hplain : Plain s.before (.ofChar '{' :: (s.inside ++ .ofChar '}' :: rest)))
      (hgives : Gives s.inside s.name s.note) (hrest : Cut rest spans last) :
      Cut (s.source ++ rest) (s :: spans) last

theorem Span.source_append (s : Span) (rest : Text) :
    s.source ++ rest = s.before ++ .ofChar '{' :: (s.inside ++ .ofChar '}' :: rest) := by
  simp [source]

theorem plain_nil (rest : Text) : Plain [] rest :=
  fun _ hsuffix hne => absurd (List.suffix_nil.mp hsuffix) hne

theorem plain_cons_iff {c : CodePoint} {t rest : Text} :
    Plain (c :: t) rest ↔ ¬ Opens (c :: (t ++ rest)) ∧ Plain t rest := by
  constructor
  · intro h
    exact ⟨h (c :: t) (List.suffix_refl _) (by simp), fun u hu hne => h u (hu.trans (List.suffix_cons c t)) hne⟩
  · rintro ⟨hopens, h⟩ u hu hne
    rcases List.suffix_cons_iff.mp hu with rfl | hu
    · exact hopens
    · exact h u hu hne

/-- Where no placeholder can start, every code point is a part of its own. -/
theorem parts_append_of_plain {t rest : Text} (h : Plain t rest) :
    parts (t ++ rest) = t.map .plain ++ parts rest := by
  induction t with
  | nil => rfl
  | cons c t ih =>
    obtain ⟨hopens, ht⟩ := plain_cons_iff.mp h
    rw [List.cons_append, parts_plain hopens, ih ht, List.map_cons, List.cons_append]

/-- **Every text has a cut.** A code point at which no placeholder starts goes to the first span of what
follows it, or to the last text. -/
theorem exists_cut (t : Text) : ∃ spans last, Cut t spans last := by
  induction t using parts_induction with
  | nil => exact ⟨[], [], .last [] (plain_nil [])⟩
  | plain c t hopens ih =>
    obtain ⟨spans, last, hcut⟩ := ih
    -- the code point stands before the first span, if there is one
    cases hcut with
    | last _ hplain =>
      refine ⟨[], c :: t, .last _ (plain_cons_iff.mpr ⟨?_, hplain⟩)⟩
      rw [List.append_nil]
      exact hopens
    | span s rest spans _ hinside hfree hplain hgives hrest =>
      have hlonger : Plain (c :: s.before) (.ofChar '{' :: (s.inside ++ .ofChar '}' :: rest)) := by
        rw [s.source_append] at hopens
        exact plain_cons_iff.mpr ⟨hopens, hplain⟩
      exact ⟨_, last, .span { s with before := c :: s.before } rest spans last hinside hfree hlonger hgives
        hrest⟩
  | placeholder inside rest hne hfree ih =>
    obtain ⟨spans, last, hcut⟩ := ih
    have hgives : Gives inside (name inside) (note inside) := gives_iff.mpr ⟨rfl, rfl⟩
    -- the placeholder is a span, with nothing before it
    have hspan := Cut.span ⟨[], inside, name inside, note inside⟩ rest spans last hne hfree (plain_nil _)
      hgives hcut
    rw [Span.source_append] at hspan
    exact ⟨_, last, hspan⟩

/-- Of two ways to the first placeholder of a text, neither is longer. -/
theorem eq_of_plain {a b x y : Text} (ha : Plain a x) (hb : Plain b y) (hx : Opens x) (hy : Opens y)
    (h : a ++ x = b ++ y) : a = b ∧ x = y := by
  rcases List.append_eq_append_iff.mp h with ⟨more, hmore, hrest⟩ | ⟨more, hmore, hrest⟩
  · -- the first placeholder of the shorter way would start within the longer one
    have hnil : more = [] := by
      by_contra hne
      have hclosed := hb more (hmore ▸ List.suffix_append a more) hne
      rw [← hrest] at hclosed
      exact hclosed hx
    subst hnil
    rw [List.append_nil] at hmore
    exact ⟨hmore.symm, hrest⟩
  · have hnil : more = [] := by
      by_contra hne
      have hclosed := ha more (hmore ▸ List.suffix_append b more) hne
      rw [← hrest] at hclosed
      exact hclosed hy
    subst hnil
    rw [List.append_nil] at hmore
    exact ⟨hmore, hrest.symm⟩

/-- A placeholder ends at the first closing brace. -/
theorem eq_of_closed {a b x y : Text} (ha : .ofChar '}' ∉ a) (hb : .ofChar '}' ∉ b)
    (h : a ++ .ofChar '}' :: x = b ++ .ofChar '}' :: y) : a = b ∧ x = y := by
  have hsame : a = b := by
    rw [← Text.takeWhile_append_mark ha x, h, Text.takeWhile_append_mark hb]
  subst hsame
  exact ⟨rfl, (List.cons.inj (List.append_cancel_left h)).2⟩

/-- No placeholder starts in the last text of a cut, so that a text with a span is none. -/
theorem not_plain_source (s : Span) (rest : Text) (hinside : s.inside ≠ []) (hfree : .ofChar '}' ∉ s.inside) :
    ¬ Plain (s.source ++ rest) [] := by
  intro hplain
  have hopens : Opens (.ofChar '{' :: (s.inside ++ .ofChar '}' :: rest)) :=
    opens_iff_exists.mpr ⟨s.inside, rest, hinside, hfree, rfl⟩
  have hsuffix : .ofChar '{' :: (s.inside ++ .ofChar '}' :: rest) <:+ s.source ++ rest := by
    rw [s.source_append]
    exact List.suffix_append _ _
  have hclosed := hplain _ hsuffix (List.cons_ne_nil _ _)
  rw [List.append_nil] at hclosed
  exact hclosed hopens

/-- **A text has one cut.** -/
theorem Cut.unique {t : Text} {spans spans' : List Span} {last last' : Text} (h : Cut t spans last)
    (h' : Cut t spans' last') : spans' = spans ∧ last' = last := by
  induction h generalizing spans' last' with
  | last t hplain =>
    cases h' with
    | last => exact ⟨rfl, rfl⟩
    | span s rest spans _ hinside hfree => exact absurd hplain (not_plain_source s rest hinside hfree)
  | span s rest spans last hinside hfree hplain hgives hrest ih =>
    generalize htext : s.source ++ rest = t at h'
    cases h' with
    | last _ hplain' =>
      rw [← htext] at hplain'
      exact absurd hplain' (not_plain_source s rest hinside hfree)
    | span s' rest' spans' _ hinside' hfree' hplain' hgives' hrest' =>
      rw [s.source_append, s'.source_append] at htext
      -- both placeholders start at the first brace that can open one, and end at the first closing brace
      obtain ⟨hbefore, hplaceholder⟩ := eq_of_plain hplain hplain'
        (opens_iff_exists.mpr ⟨s.inside, rest, hinside, hfree, rfl⟩)
        (opens_iff_exists.mpr ⟨s'.inside, rest', hinside', hfree', rfl⟩) htext
      obtain ⟨hsame, hbehind⟩ := eq_of_closed hfree hfree' (List.cons.inj hplaceholder).2
      subst hbehind
      obtain ⟨hspans, hlast⟩ := ih hrest'
      rw [gives_iff] at hgives hgives'
      have hspan : s' = s := by
        obtain ⟨before, inside, name, note⟩ := s
        obtain ⟨before', inside', name', note'⟩ := s'
        simp only at hbefore hsame hgives hgives'
        rw [hgives.1, hgives.2, hgives'.1, hgives'.2, hbefore, hsame]
      exact ⟨by rw [hspan, hspans], hlast⟩

/-! ## Decoding -/

/-- The parts of a span. -/
def Span.parts (s : Span) : List Part := s.before.map .plain ++ [.placeholder s.inside]

/-- The parts of a text are those of its spans, and the code points of its last text. -/
theorem parts_eq_of_cut {t : Text} {spans : List Span} {last : Text} (h : Cut t spans last) :
    parts t = spans.flatMap Span.parts ++ last.map .plain := by
  induction h with
  | last t hplain =>
    have happend := parts_append_of_plain hplain
    rw [List.append_nil] at happend
    rw [happend]
    exact List.append_nil _
  | span s rest spans last hinside hfree hplain _ _ ih =>
    rw [s.source_append, parts_append_of_plain hplain, parts_placeholder hinside hfree, ih,
      List.flatMap_cons, Span.parts]
    simp

theorem flatMap_text_plain (t : Text) : (t.map Part.plain).flatMap Part.text = t := by
  rw [List.flatMap_map]
  exact List.flatMap_singleton' t

theorem filterMap_comment?_plain (t : Text) : (t.map Part.plain).filterMap Part.comment? = [] := by
  rw [List.filterMap_map, List.filterMap_eq_nil_iff]
  intro c _
  rfl

theorem Span.flatMap_text_parts {s : Span} (h : Gives s.inside s.name s.note) :
    s.parts.flatMap Part.text = s.plainText := by
  rw [gives_iff] at h
  rw [parts, List.flatMap_append, flatMap_text_plain, List.flatMap_singleton, Part.text, ← h.1, plainText]
  rfl

theorem Span.filterMap_comment?_parts {s : Span} (h : Gives s.inside s.name s.note) :
    s.parts.filterMap Part.comment? = s.comment?.toList := by
  rw [gives_iff] at h
  rw [parts, List.filterMap_append, filterMap_comment?_plain, List.nil_append, comment?, h.1, h.2]
  by_cases hnote : Placeholder.note s.inside = []
  · simp [Part.comment?, hnote]
  · simp [Part.comment?, hnote]

/-- **Decoding in terms of a cut.** The name of every placeholder stays, and its note becomes a comment. -/
theorem decode_eq_of_cut {t : Text} {spans : List Span} {last : Text} (h : Cut t spans last)
    (comments : List Text) :
    decode t comments =
      (spans.flatMap Span.plainText ++ last, comments ++ spans.filterMap Span.comment?) := by
  have hparts := parts_eq_of_cut h
  -- each span says what its placeholder gives
  have hgives : ∀ s ∈ spans, Gives s.inside s.name s.note := by
    clear hparts
    induction h with
    | last => exact List.forall_mem_nil _
    | span s _ _ _ _ _ _ hgives _ ih => exact List.forall_mem_cons.mpr ⟨hgives, ih⟩
  -- names and comments are those of the spans, one by one
  have htext : (spans.flatMap Span.parts).flatMap Part.text = spans.flatMap Span.plainText := by
    rw [List.flatMap_assoc]
    exact List.flatMap_congr fun s hs => Span.flatMap_text_parts (hgives s hs)
  have hcomments : (spans.flatMap Span.parts).filterMap Part.comment? = spans.filterMap Span.comment? := by
    rw [List.filterMap_flatMap, List.filterMap_eq_flatMap_toList]
    exact List.flatMap_congr fun s hs => Span.filterMap_comment?_parts (hgives s hs)
  rw [decode, hparts, List.flatMap_append, List.filterMap_append, htext, hcomments, flatMap_text_plain,
    filterMap_comment?_plain, List.append_nil]

/-- **Decoding a text.** There is exactly one way to write a text as plain texts with placeholders between
them, where each placeholder starts at the first brace behind the one before it at which one can start, and
no brace of the last plain text can start one. Decoding puts its name for what stands between the braces of
each placeholder, changes nothing else, and appends a comment for each note that is not empty, in order. -/
theorem decode_at_placeholders (t : Text) (comments : List Text) :
    ∃ spans last, (∀ spans' last', Cut t spans' last' ↔ spans' = spans ∧ last' = last) ∧
      t = spans.flatMap Span.source ++ last ∧
      decode t comments =
        (spans.flatMap Span.plainText ++ last, comments ++ spans.filterMap Span.comment?) := by
  obtain ⟨spans, last, hcut⟩ := exists_cut t
  refine ⟨spans, last, fun spans' last' => ⟨hcut.unique, ?_⟩, ?_, decode_eq_of_cut hcut comments⟩
  · rintro ⟨rfl, rfl⟩
    exact hcut
  · induction hcut with
    | last t => rfl
    | span s rest spans last _ _ _ _ _ ih => rw [List.flatMap_cons, List.append_assoc, ← ih]

/-! ## Decoding twice -/

/-- A text with the names of its placeholders alone between their braces. -/
def plainText (t : Text) : Text := (parts t).flatMap Part.text

/-- The comments for the notes of a text. -/
def remarks (t : Text) : List Text := (parts t).filterMap Part.comment?

theorem decode_eq (t : Text) (comments : List Text) : decode t comments = (plainText t, comments ++ remarks t) :=
  rfl

theorem plainText_plain {c : CodePoint} {t : Text} (h : ¬ Opens (c :: t)) :
    plainText (c :: t) = c :: plainText t := by
  rw [plainText, parts_plain h]
  rfl

theorem remarks_plain {c : CodePoint} {t : Text} (h : ¬ Opens (c :: t)) : remarks (c :: t) = remarks t := by
  rw [remarks, parts_plain h]
  rfl

theorem plainText_placeholder {inside : Text} (hne : inside ≠ []) (hfree : .ofChar '}' ∉ inside)
    (rest : Text) :
    plainText (.ofChar '{' :: (inside ++ .ofChar '}' :: rest)) =
      .ofChar '{' :: (name inside ++ .ofChar '}' :: plainText rest) := by
  rw [plainText, parts_placeholder hne hfree, List.flatMap_cons, Part.text, plainText]
  simp

/-- Decoding does not change what a text starts with. -/
theorem head?_plainText (t : Text) : (plainText t).head? = t.head? := by
  induction t using parts_induction with
  | nil => rfl
  | plain c t hopens _ =>
    rw [plainText_plain hopens]
    rfl
  | placeholder inside rest hne hfree _ =>
    rw [plainText_placeholder hne hfree]
    rfl

/-- Decoding does not change whether a text has a closing brace. -/
theorem mem_plainText_iff (t : Text) : .ofChar '}' ∈ plainText t ↔ .ofChar '}' ∈ t := by
  induction t using parts_induction with
  | nil => rfl
  | plain c t hopens ih => rw [plainText_plain hopens, List.mem_cons, List.mem_cons, ih]
  | placeholder inside rest hne hfree _ =>
    rw [plainText_placeholder hne hfree]
    simp

/-- Where no placeholder starts, none starts after what follows is decoded. -/
theorem not_opens_plainText {c : CodePoint} {t : Text} (h : ¬ Opens (c :: t)) : ¬ Opens (c :: plainText t) := by
  rw [opens_cons_iff] at h ⊢
  rw [head?_plainText, mem_plainText_iff]
  exact h

theorem mem_of_mem_name {inside : Text} {c : CodePoint} (h : c ∈ name inside) : c ∈ inside :=
  (isInfix_name inside).mem h

/-- No name holds a `#`. -/
theorem not_mem_name (inside : Text) : .ofChar '#' ∉ name inside := by
  intro hmem
  have hbefore := (isInfix_strip _).mem hmem
  have hne : (!(CodePoint.ofChar '#').is '#') = true :=
    List.mem_takeWhile_imp (p := fun c : CodePoint => !c.is '#') hbefore
  simp at hne

/-- A name alone between braces is a name without a note. -/
theorem gives_name (inside : Text) : Gives (name inside) (name inside) [] := by
  have hstrip : (name inside).strip = name inside := Text.strip_strip _
  exact .name _ _ (not_mem_name inside) (Text.trims_iff.mpr hstrip.symm)

/-- An empty placeholder is none: its braces are plain text. -/
theorem parts_braces (t : Text) :
    parts (.ofChar '{' :: .ofChar '}' :: t) = .plain (.ofChar '{') :: .plain (.ofChar '}') :: parts t := by
  have hopen : ¬ Opens (.ofChar '{' :: .ofChar '}' :: t) := by
    rw [opens_cons_iff]
    exact fun h => h.2.1 rfl
  have hclose : ¬ Opens (.ofChar '}' :: t) := by
    rw [opens_cons_iff]
    exact fun h => absurd h.1 (by decide)
  rw [parts_plain hopen, parts_plain hclose]

/-- **A decoded text has nothing left to decode.** -/
theorem decoded_plainText (t : Text) : plainText (plainText t) = plainText t ∧ remarks (plainText t) = [] := by
  induction t using parts_induction with
  | nil => exact ⟨rfl, rfl⟩
  | plain c t hopens ih =>
    have hopens' := not_opens_plainText hopens
    rw [plainText_plain hopens, plainText_plain hopens', remarks_plain hopens', ih.1]
    exact ⟨rfl, ih.2⟩
  | placeholder inside rest hne hfree ih =>
    rw [plainText_placeholder hne hfree]
    by_cases hname : name inside = []
    · -- the placeholder has become a pair of braces
      have hparts := parts_braces (plainText rest)
      rw [hname, List.nil_append, plainText, remarks, hparts]
      refine ⟨?_, ih.2⟩
      exact congrArg (fun u => CodePoint.ofChar '{' :: .ofChar '}' :: u) ih.1
    · -- the placeholder still reaches to the same brace, and has lost its note
      have hfree' : .ofChar '}' ∉ name inside := fun hmem => hfree (mem_of_mem_name hmem)
      obtain ⟨hsame, hnote⟩ := gives_iff.mp (gives_name inside)
      rw [plainText_placeholder hname hfree', ← hsame, ih.1, remarks, parts_placeholder hname hfree',
        List.filterMap_cons_none]
      · exact ⟨rfl, ih.2⟩
      · rw [Part.comment?, ← hnote]
        rfl

theorem decodeAll_eq (ts comments : List Text) :
    decodeAll ts comments = (ts.map plainText, comments ++ ts.flatMap remarks) := by
  induction ts generalizing comments with
  | nil => rw [decodeAll, List.map_nil, List.flatMap_nil, List.append_nil]
  | cons t ts ih =>
    rw [decodeAll, decode_eq]
    simp only [ih, List.map_cons, List.flatMap_cons, List.append_assoc]

theorem texts?_map_text (ts : List Text) : texts? (ts.map .text) = some ts := by
  induction ts with
  | nil => rfl
  | cons t ts ih =>
    rw [texts?] at ih
    rw [texts?, List.map_cons, List.mapM_cons, ih]
    rfl

end Placeholder

/-- **Decoding a message twice** is decoding it once, whatever its payload is. -/
theorem Message.decoded_decoded (m : Message) : m.decoded.decoded = m.decoded := by
  open Placeholder in
  obtain ⟨location, comments, payload, origin⟩ := m
  cases payload with
  | text t =>
    have hagain := decoded_plainText t
    show (Message.mk location (comments ++ remarks t) (.text (plainText t)) origin).decoded = _
    simp only [decoded, decode_eq, hagain, List.append_nil]
  | tuple items =>
    cases hitems : texts? items with
    | none =>
      -- an item that is no text keeps the others from being decoded
      simp only [decoded, hitems]
    | some ts =>
      have hplain : (ts.map plainText).map plainText = ts.map plainText := by
        rw [List.map_map]
        exact List.map_congr_left fun t _ => (decoded_plainText t).1
      have hnotes : (ts.map plainText).flatMap remarks = [] := by
        rw [List.flatMap_map, List.flatMap_eq_nil_iff]
        exact fun t _ => (decoded_plainText t).2
      simp only [decoded, hitems, decodeAll_eq, texts?_map_text, hplain, hnotes, List.append_nil]
  | _ => rfl

/-- **Decoding is idempotent.** A decoded text stays as it is when it is decoded again, and gives no further
comment; hence so does a decoded message, whether its payload can be translated or not. -/
theorem Placeholder.decode_idempotent :
    (∀ t comments more, decode (decode t comments).1 more = ((decode t comments).1, more)) ∧
    ∀ m : Message, m.decoded.decoded = m.decoded := by
  refine ⟨fun t comments more => ?_, Message.decoded_decoded⟩
  obtain ⟨hplain, hnotes⟩ := decoded_plainText t
  show decode (plainText t) more = (plainText t, more)
  rw [decode_eq, hplain, hnotes, List.append_nil]

end Phrasebook
