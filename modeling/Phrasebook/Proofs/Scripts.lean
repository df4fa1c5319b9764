import Mathlib.Data.List.Forall2
import Mathlib.Data.List.TakeWhile
import Phrasebook.Extraction
import Phrasebook.Proofs.Quoting

/-!
# Phrasebook — scripts keep their place in a page

What a script element of a page is, said without a reader: its opening tag, its body and its closing tag
stand one after the other, and no closing tag starts before the end of the body. The elements of a page are
found from left to right, each behind the end of the one before it. `Page.split` keeps the bodies of those
elements whose attributes let them be kept, and makes gaps of all the rest.

A gap is replaced by its line feeds and a semicolon, so every body stays on its lines. No statement runs
into the next script, but a comment to the end of its line does: behind a script that ends with one, and with
no line feed in the gap, the semicolon and the next script are part of the comment.

Main results:

* `Page.element?_of_isElement`, `Page.isElement_of_element?` — the reader finds the element at the start of
  a text if there is one;
* `Page.splitFrom_of_element` — the step of `Page.split` at an element;
* `Page.split_keeps_scripts` — gaps and bodies of every page;
* `Page.told_openNote` — a page that loses a message.
-/

namespace Phrasebook.Page

/-! ## Tags and elements -/

/-- A text spells a word up to case. -/
def Spells (word : List Char) (t : Text) : Prop := List.Forall₂ (fun letter c => folds letter c = true) word t

/-- A text is an opening script tag with the given attributes. The name of the tag is a whole word, and
the tag ends with the first `>`. -/
structure IsOpening (tag attributes : Text) : Prop where
  spelled  : ∃ name, Spells "script".toList name ∧
    tag = .ofChar '<' :: (name ++ (attributes ++ [.ofChar '>']))
  boundary : ∀ c ∈ attributes.head?, c.isWord = false
  inside   : .ofChar '>' ∉ attributes

/-- A text is a closing script tag; blanks may stand before its `>`. -/
def IsClosing (tag : Text) : Prop :=
  ∃ name blanks, Spells "script".toList name ∧ (∀ c ∈ blanks, c.isBlank = true) ∧
    tag = .ofChar '<' :: .ofChar '/' :: (name ++ (blanks ++ [.ofChar '>']))

/-- A closing tag stands at the start of a text. -/
def ClosesAt (t : Text) : Prop := ∃ tag rest, IsClosing tag ∧ t = tag ++ rest

/-- A script element stands at the start of a text: an opening tag, a body, and the first closing tag
behind the opening one. -/
structure IsElement (t opening attributes body closing rest : Text) : Prop where
  text    : t = opening ++ (body ++ (closing ++ rest))
  opens   : IsOpening opening attributes
  closes  : IsClosing closing
  nearest : ∀ before behind, body = before ++ behind → behind ≠ [] →
    ¬ ClosesAt (behind ++ (closing ++ rest))

/-! ## Marks and words -/

theorem dropMark?_eq_some_iff {mark : Char} {t rest : Text} :
    dropMark? mark t = some rest ↔ t = .ofChar mark :: rest := by
  cases t with
  | nil => simp [dropMark?]
  | cons c t =>
    rw [dropMark?, List.cons.injEq, ← CodePoint.is_iff]
    split
    · next hc => simp [hc]
    · next hc => simp [hc]

/-- What is left behind a word in either case: the text starts with some spelling of the word, and the rest
follows it. -/
theorem dropWord?_eq_some_iff {word : List Char} {t rest : Text} :
    dropWord? word t = some rest ↔ ∃ name, Spells word name ∧ t = name ++ rest := by
  induction word generalizing t with
  | nil =>
    rw [dropWord?, Option.some.injEq]
    constructor
    · rintro rfl
      exact ⟨[], .nil, rfl⟩
    · rintro ⟨name, hname, rfl⟩
      cases hname
      rfl
  | cons letter word ih =>
    cases t with
    | nil =>
      simp only [dropWord?, reduceCtorEq, false_iff, not_exists, not_and]
      rintro name hname htext
      cases hname
      cases htext
    | cons c t =>
      rw [dropWord?]
      split
      · next hc =>
        rw [ih]
        constructor
        · rintro ⟨name, hname, rfl⟩
          exact ⟨c :: name, .cons hc hname, rfl⟩
        · rintro ⟨name, hname, htext⟩
          cases hname with
          | cons hfirst hothers =>
            cases htext
            exact ⟨_, hothers, rfl⟩
      · next hc =>
        simp only [reduceCtorEq, false_iff, not_exists, not_and]
        rintro name hname htext
        cases hname with
        | cons hfirst hothers =>
          cases htext
          exact hc hfirst

/-- The blanks before a code point that is none. -/
theorem dropBlanks_eq_cons_iff {mark : Char} (h : (CodePoint.ofChar mark).isBlank = false) {t rest : Text} :
    dropBlanks t = .ofChar mark :: rest ↔
      ∃ blanks, (∀ c ∈ blanks, c.isBlank = true) ∧ t = blanks ++ .ofChar mark :: rest := by
  constructor
  · intro hdrop
    refine ⟨t.takeWhile CodePoint.isBlank, fun c hc => List.mem_takeWhile_imp hc, ?_⟩
    rw [← hdrop, dropBlanks, List.takeWhile_append_dropWhile]
  · rintro ⟨blanks, hblanks, rfl⟩
    rw [dropBlanks, List.dropWhile_append_of_pos hblanks, List.dropWhile_cons_of_neg (ne_true_of_eq_false h)]

/-! ## The readers of tags -/

/-- What a closing tag leaves: the text starts with such a tag, and the rest follows it. -/
theorem closingTag?_eq_some_iff {t rest : Text} :
    closingTag? t = some rest ↔ ∃ tag, IsClosing tag ∧ t = tag ++ rest := by
  simp only [closingTag?, Option.bind_eq_bind, Option.bind_eq_some_iff, dropMark?_eq_some_iff,
    dropWord?_eq_some_iff, @dropBlanks_eq_cons_iff '>' rfl]
  constructor
  · rintro ⟨inside, ⟨slash, ⟨name, rfl, rfl⟩, word, hword, rfl⟩, blanks, hblanks, rfl⟩
    exact ⟨_, ⟨word, blanks, hword, hblanks, rfl⟩, by simp⟩
  · rintro ⟨tag, ⟨word, blanks, hword, hblanks, rfl⟩, rfl⟩
    refine ⟨blanks ++ .ofChar '>' :: rest, ⟨_, ⟨_, rfl, rfl⟩, word, hword, ?_⟩, blanks, hblanks, rfl⟩
    show (word ++ (blanks ++ [.ofChar '>'])) ++ rest = _
    simp

theorem closingTag?_eq_none_iff {t : Text} : closingTag? t = none ↔ ¬ ClosesAt t := by
  constructor
  · rintro hnone ⟨tag, rest, htag, rfl⟩
    rw [closingTag?_eq_some_iff.mpr ⟨tag, htag, rfl⟩] at hnone
    cases hnone
  · intro hcloses
    cases htag : closingTag? t with
    | none => rfl
    | some rest =>
      obtain ⟨tag, hclosing, htext⟩ := closingTag?_eq_some_iff.mp htag
      exact absurd ⟨tag, rest, hclosing, htext⟩ hcloses

/-- What an opening tag leaves: the text starts with such a tag, whose attributes are as given, and the inside
of the element follows it. The name ends there, and no `>` stands among the attributes. -/
theorem openingTag?_eq_some_iff {t attributes inside : Text} :
    openingTag? t = some (attributes, inside) ↔ ∃ tag, IsOpening tag attributes ∧ t = tag ++ inside := by
  unfold openingTag?
  simp only [Option.bind_eq_bind, Option.bind_eq_some_iff, dropMark?_eq_some_iff, dropWord?_eq_some_iff]
  constructor
  · rintro ⟨behind, ⟨_, rfl, name, hname, rfl⟩, hbehind⟩
    split at hbehind
    · cases hbehind
    · next hword =>
      obtain ⟨body, hdrop, hresult⟩ := Option.bind_eq_some_iff.mp hbehind
      rw [dropMark?_eq_some_iff] at hdrop
      simp only [Option.pure_def, Option.some.injEq, Prod.mk.injEq] at hresult
      obtain ⟨hattributes, rfl⟩ := hresult
      rw [hattributes] at hdrop
      -- the attributes are all that stands before the first `>`
      have hcut : behind = attributes ++ .ofChar '>' :: body := by
        have hprefix : attributes <+: behind := hattributes ▸ List.takeWhile_prefix _
        rw [← hdrop]
        exact (List.prefix_iff_eq_append.mp hprefix).symm
      refine ⟨.ofChar '<' :: (name ++ (attributes ++ [.ofChar '>'])), ⟨⟨name, hname, rfl⟩, ?_, ?_⟩, ?_⟩
      · intro c hc
        rw [hcut] at hword
        cases attributes with
        | nil => cases hc
        | cons d rest =>
          rw [List.head?_cons, Option.mem_some_iff] at hc
          rw [List.cons_append, List.head?_cons, Option.any_some, Bool.not_eq_true] at hword
          rw [← hc]
          exact hword
      · intro hmem
        rw [← hattributes] at hmem
        have := List.mem_takeWhile_imp hmem
        revert this
        decide
      · rw [hcut]
        simp
  -- conversely, the name ends where the attributes begin, and they end at the first `>`
  · rintro ⟨tag, ⟨⟨name, hname, rfl⟩, hboundary, hinside⟩, rfl⟩
    refine ⟨attributes ++ .ofChar '>' :: inside, ⟨_, rfl, name, hname, ?_⟩, ?_⟩
    · show (name ++ (attributes ++ [.ofChar '>'])) ++ inside = _
      simp
    · have hnoWord : ¬ ((attributes ++ CodePoint.ofChar '>' :: inside).head?.any CodePoint.isWord = true) := by
        cases attributes with
        | nil =>
          rw [List.nil_append, List.head?_cons, Option.any_some]
          decide
        | cons c rest =>
          exact ne_true_of_eq_false (hboundary c rfl)
      rw [if_neg hnoWord, Text.takeWhile_append_mark hinside, List.drop_left]
      rfl

/-- **The nearest closing tag.** -/
theorem untilClosing?_eq_some_iff {t body rest : Text} :
    untilClosing? t = some (body, rest) ↔ ∃ closing, IsClosing closing ∧ t = body ++ (closing ++ rest) ∧
      ∀ before behind, body = before ++ behind → behind ≠ [] → ¬ ClosesAt (behind ++ (closing ++ rest)) := by
  -- either a closing tag stands here, or the body takes one code point more
  induction t generalizing body with
  | nil =>
    simp only [untilClosing?, reduceCtorEq, false_iff, not_exists, not_and]
    rintro closing ⟨name, blanks, hname, hblanks, rfl⟩ htext
    simp at htext
  | cons c t ih =>
    rw [untilClosing?]
    split
    · next behind hbehind =>
      obtain ⟨closing, hclosing, htext⟩ := closingTag?_eq_some_iff.mp hbehind
      rw [Option.some.injEq, Prod.mk.injEq]
      constructor
      · rintro ⟨rfl, rfl⟩
        refine ⟨closing, hclosing, htext, ?_⟩
        intro before behind hbody hne
        exact absurd (List.append_eq_nil_iff.mp hbody.symm).2 hne
      · rintro ⟨closing', hclosing', htext', hnearest⟩
        -- a tag stands here, so that no body can come before one
        cases body with
        | nil =>
          have hsame := closingTag?_eq_some_iff.mpr ⟨closing', hclosing', htext'⟩
          rw [hbehind, Option.some.injEq] at hsame
          exact ⟨rfl, hsame⟩
        | cons d body =>
          refine absurd ⟨closing, behind, hclosing, ?_⟩ (hnearest [] (d :: body) rfl (by simp))
          rw [← htext', htext]
    · next hnone =>
      rw [closingTag?_eq_none_iff] at hnone
      simp only [Option.map_eq_some_iff, Prod.exists, Prod.mk.injEq]
      constructor
      · rintro ⟨body', rest', hread, rfl, rfl⟩
        obtain ⟨closing, hclosing, rfl, hnearest⟩ := ih.mp hread
        refine ⟨closing, hclosing, rfl, ?_⟩
        intro before behind hbody hne
        cases before with
        | nil =>
          rw [List.nil_append] at hbody
          rw [← hbody]
          exact hnone
        | cons d before =>
          rw [List.cons_append, List.cons.injEq] at hbody
          exact hnearest before behind hbody.2 hne
      · rintro ⟨closing, hclosing, htext, hnearest⟩
        cases body with
        | nil => exact absurd ⟨closing, rest, hclosing, htext⟩ hnone
        | cons d body =>
          rw [List.cons_append, List.cons.injEq] at htext
          obtain ⟨rfl, rfl⟩ := htext
          refine ⟨body, rest, ih.mpr ⟨closing, hclosing, rfl, ?_⟩, rfl, rfl⟩
          intro before behind hbody hne
          exact hnearest (c :: before) behind (by rw [hbody]; rfl) hne

/-! ## Elements -/

/-- **The reader finds an element** where one stands. -/
theorem element?_of_isElement {t opening attributes body closing rest : Text}
    (h : IsElement t opening attributes body closing rest) :
    element? t = some {
      attributes
      opening := opening.length
      body := body.length
      closing := closing.length } := by
  have htag := openingTag?_eq_some_iff.mpr ⟨opening, h.opens, h.text⟩
  have hbody := untilClosing?_eq_some_iff.mpr ⟨closing, h.closes, rfl, h.nearest⟩
  rw [element?, htag]
  show (untilClosing? (body ++ (closing ++ rest))).bind _ = _
  rw [hbody, h.text]
  simp

/-- The reader finds only elements. -/
theorem isElement_of_element? {t : Text} {e : Element} (h : element? t = some e) :
    ∃ opening body closing rest, IsElement t opening e.attributes body closing rest := by
  rw [element?, Option.bind_eq_bind, Option.bind_eq_some_iff] at h
  obtain ⟨⟨attributes, inside⟩, htag, h⟩ := h
  rw [Option.bind_eq_some_iff] at h
  obtain ⟨⟨body, rest⟩, hbody, h⟩ := h
  cases h
  obtain ⟨opening, hopening, rfl⟩ := openingTag?_eq_some_iff.mp htag
  obtain ⟨closing, hclosing, rfl, hnearest⟩ := untilClosing?_eq_some_iff.mp hbody
  exact ⟨opening, body, closing, rest, rfl, hopening, hclosing, hnearest⟩

/-- No element is found at the start of a text exactly if there is none. -/
theorem element?_eq_none_iff {t : Text} :
    element? t = none ↔ ∀ opening attributes body closing rest,
      ¬ IsElement t opening attributes body closing rest := by
  constructor
  · intro hnone opening attributes body closing rest h
    rw [element?_of_isElement h] at hnone
    cases hnone
  · intro hno
    cases he : element? t with
    | none => rfl
    | some e =>
      obtain ⟨opening, body, closing, rest, h⟩ := isElement_of_element? he
      exact absurd h (hno opening e.attributes body closing rest)

/-! ## Steps of the split -/

theorem splitFrom_dropped (gap dropped t : Text) (passed : Nat) :
    splitFrom gap dropped.length passed (dropped ++ t) = splitFrom gap 0 passed t := by
  induction dropped with
  | nil => rfl
  | cons c dropped ih => exact ih

theorem splitFrom_passed (gap passed t : Text) :
    splitFrom gap 0 passed.length (passed ++ t) = splitFrom (passed.reverse ++ gap) 0 0 t := by
  induction passed generalizing gap with
  | nil => rfl
  | cons c passed ih =>
    rw [List.reverse_cons, List.append_assoc]
    exact ih (c :: gap)

theorem splitFrom_of_none {c : CodePoint} {t : Text} (h : element? (c :: t) = none) (gap : Text) :
    splitFrom gap 0 0 (c :: t) = splitFrom (c :: gap) 0 0 t := by
  rw [splitFrom, h]

/-- **Step.** At an element that is kept, the open gap takes in the opening tag and ends, and the next gap
starts with the closing tag; an element that is not kept goes into the open gap as a whole. -/
theorem splitFrom_of_element {t opening attributes body closing rest : Text}
    (h : IsElement t opening attributes body closing rest) (gap : Text) :
    splitFrom gap 0 0 t =
      if holdsScript attributes then
        let behind := splitFrom closing.reverse 0 0 rest
        { behind with kept := (gap.reverse ++ opening, body) :: behind.kept }
      else splitFrom ((opening ++ (body ++ closing)).reverse ++ gap) 0 0 rest := by
  -- an opening tag is not empty
  obtain ⟨c, inside, rfl⟩ : ∃ c inside, opening = c :: inside := by
    obtain ⟨⟨name, -, rfl⟩, -, -⟩ := h.opens
    exact ⟨_, _, rfl⟩
  have htext : t = c :: (inside ++ (body ++ (closing ++ rest))) := h.text
  have he := element?_of_isElement h
  rw [htext] at he ⊢
  rw [splitFrom, he]
  simp only [List.length_cons]
  split
  · have hdropped : inside.length + 1 + body.length - 1 = (inside ++ body).length := by
      rw [List.length_append]
      omega
    -- tag and body are dropped, and the closing tag passes into the next gap
    have hskip : splitFrom [] (inside ++ body).length closing.length (inside ++ (body ++ (closing ++ rest))) =
        splitFrom closing.reverse 0 0 rest := by
      rw [← List.append_assoc, splitFrom_dropped, splitFrom_passed, List.append_nil]
    have hopening : (c :: (inside ++ (body ++ (closing ++ rest)))).take (inside.length + 1) = c :: inside := by
      simp
    have hbody : ((c :: (inside ++ (body ++ (closing ++ rest)))).drop (inside.length + 1)).take body.length =
        body := by
      simp
    rw [hdropped, hskip, hopening, hbody]
  · have hpassed : inside.length + 1 + body.length + closing.length - 1 =
        (inside ++ (body ++ closing)).length := by
      rw [List.length_append, List.length_append]
      omega
    -- the element passes into the open gap as a whole
    have hregroup : inside ++ (body ++ (closing ++ rest)) = (inside ++ (body ++ closing)) ++ rest := by
      simp
    rw [hpassed, hregroup, splitFrom_passed]
    simp

/-! ## The elements of a page -/

/-- A script element that was found: its attributes, where its body starts, and the body. -/
structure Found where
  attributes : Text
  start : Nat
  body : Text

/-- Script elements are found from left to right, each behind the one before it. The number is the
position of the text in the page. -/
inductive Finds : Nat → Text → List Found → Prop
  | none (position : Nat) : Finds position [] []
  | pass {position : Nat} {c : CodePoint} {t : Text} {found : List Found}
      (hno : ∀ opening attributes body closing rest,
        ¬ IsElement (c :: t) opening attributes body closing rest)
      (hothers : Finds (position + 1) t found) : Finds position (c :: t) found
  | element {position : Nat} {t opening attributes body closing rest : Text} {found : List Found}
      (h : IsElement t opening attributes body closing rest)
      (hothers : Finds (position + (opening.length + body.length + closing.length)) rest found) :
      Finds position t ({ attributes, start := position + opening.length, body } :: found)

/-- The elements of every page can be found from left to right. -/
theorem exists_finds (position : Nat) (t : Text) : ∃ found, Finds position t found := by
  -- an element is passed at once, so the induction is on the length
  induction hlength : t.length using Nat.strongRecOn generalizing position t with
  | ind n ih =>
    cases t with
    | nil => exact ⟨[], .none position⟩
    | cons c t =>
      cases he : element? (c :: t) with
      | none =>
        obtain ⟨found, hfound⟩ := ih t.length (by rw [← hlength]; simp) (position + 1) t rfl
        exact ⟨found, .pass (element?_eq_none_iff.mp he) hfound⟩
      | some e =>
        obtain ⟨opening, body, closing, rest, h⟩ := isElement_of_element? he
        have hshorter : rest.length < n := by
          obtain ⟨⟨name, -, hspelled⟩, -, -⟩ := h.opens
          rw [← hlength, h.text, hspelled]
          simp
          omega
        obtain ⟨found, hfound⟩ := ih rest.length hshorter _ rest rfl
        exact ⟨_, .element h hfound⟩

/-! ## Gaps and bodies -/

/-- Gaps and bodies as they stand in the page. -/
def joinKept (kept : List (Text × Text)) : Text := kept.flatMap fun (gap, body) => gap ++ body

/-- Gaps and bodies as they stand in the script text. -/
def codeKept (kept : List (Text × Text)) : Text := kept.flatMap fun (gap, body) => blank gap ++ body

/-- The page of gaps and bodies. -/
def Parts.page (parts : Parts) : Text := joinKept parts.kept ++ parts.tail

/-- The gaps, the one behind the last body included. -/
def Parts.gaps (parts : Parts) : List Text := parts.kept.map Prod.fst ++ [parts.tail]

/-- The bodies, each with the position at which it starts. -/
def bodiesFrom (position : Nat) : List (Text × Text) → List (Nat × Text)
  | [] => []
  | (gap, body) :: kept =>
    (position + gap.length, body) :: bodiesFrom (position + gap.length + body.length) kept

/-- The bodies of the elements that are kept, each with the position at which it starts. -/
def keptBodies (found : List Found) : List (Nat × Text) :=
  (found.filter fun f => holdsScript f.attributes).map fun f => (f.start, f.body)

theorem keptBodies_cons_of_pos {f : Found} (h : holdsScript f.attributes = true) (found : List Found) :
    keptBodies (f :: found) = (f.start, f.body) :: keptBodies found := by
  rw [keptBodies, List.filter_cons, if_pos h]
  rfl

theorem keptBodies_cons_of_neg {f : Found} (h : ¬ holdsScript f.attributes = true) (found : List Found) :
    keptBodies (f :: found) = keptBodies found := by
  rw [keptBodies, List.filter_cons, if_neg h]
  rfl

/-- What is known of a body, given the gap before it and what follows it in the page. -/
structure IsKept (gap body behind : Text) : Prop where
  opened   : ∃ front tag attributes, gap = front ++ tag ∧ IsOpening tag attributes ∧
    holdsScript attributes = true
  unclosed : ∀ before tag after, body = before ++ (tag ++ after) → ¬ IsClosing tag
  closed   : ClosesAt behind

theorem IsElement.isKept {t opening attributes body closing rest : Text}
    (h : IsElement t opening attributes body closing rest) (hholds : holdsScript attributes = true)
    (front : Text) : IsKept (front ++ opening) body (closing ++ rest) := by
  refine ⟨⟨front, opening, attributes, rfl, h.opens, hholds⟩, ?_, closing, rest, h.closes, rfl⟩
  intro before tag after hbody htag
  -- a closing tag in the body would be nearer than the one behind it
  refine h.nearest before (tag ++ after) hbody ?_ ⟨tag, after ++ (closing ++ rest), htag, by simp⟩
  obtain ⟨name, blanks, -, -, rfl⟩ := htag
  simp

section

variable {position : Nat} {t : Text} {found : List Found}

/-- The parts of a page make up the page. -/
theorem page_splitFrom (h : Finds position t found) (gap : Text) :
    (splitFrom gap 0 0 t).page = gap.reverse ++ t := by
  induction h generalizing gap with
  | none position => simp [splitFrom, Parts.page, joinKept]
  | pass hno hothers ih =>
    rw [splitFrom_of_none (element?_eq_none_iff.mpr hno), ih]
    simp
  | @element _ _ opening attributes body closing rest _ h hothers ih =>
    rw [splitFrom_of_element h, h.text]
    -- a kept element ends the gap before it; one that is dropped stands in the gap with its body
    split
    · have hbehind := ih closing.reverse
      rw [Parts.page, List.reverse_reverse] at hbehind
      rw [Parts.page, joinKept, List.flatMap_cons, List.append_assoc]
      show (gap.reverse ++ opening) ++ body ++ (joinKept _ ++ _) = _
      rw [hbehind]
      simp
    · rw [ih]
      simp

/-- The bodies of a page are those of the elements that are kept, at their positions. -/
theorem bodiesFrom_splitFrom (h : Finds position t found) (gap : Text) (start : Nat)
    (hstart : start + gap.length = position) :
    bodiesFrom start (splitFrom gap 0 0 t).kept = keptBodies found := by
  -- the open gap has been read since the last body ended at `start`
  induction h generalizing gap start with
  | none position => rfl
  | pass hno hothers ih =>
    rw [splitFrom_of_none (element?_eq_none_iff.mpr hno)]
    exact ih _ _ (by rw [List.length_cons]; omega)
  | @element _ _ opening attributes body closing rest found h hothers ih =>
    rw [splitFrom_of_element h]
    split
    · next hholds =>
      rw [keptBodies_cons_of_pos hholds, bodiesFrom, List.length_append, List.length_reverse]
      have hposition : start + (gap.length + opening.length) = _ + opening.length :=
        (Nat.add_assoc ..).symm.trans (congrArg (· + opening.length) hstart)
      rw [hposition]
      refine congrArg _ (ih _ _ ?_)
      rw [List.length_reverse]
      omega
    · next hholds =>
      rw [keptBodies_cons_of_neg hholds]
      refine ih _ _ ?_
      simp only [List.length_append, List.length_reverse]
      omega

/-- Every kept body is the body of an element that is kept. -/
theorem isKept_splitFrom (h : Finds position t found) (gap : Text) {before after : List (Text × Text)}
    {gap' body : Text} (hkept : (splitFrom gap 0 0 t).kept = before ++ (gap', body) :: after) :
    IsKept gap' body (joinKept after ++ (splitFrom gap 0 0 t).tail) := by
  induction h generalizing gap before with
  | none position => simp [splitFrom] at hkept
  | pass hno hothers ih =>
    rw [splitFrom_of_none (element?_eq_none_iff.mpr hno)] at hkept ⊢
    exact ih _ hkept
  | @element _ _ opening attributes _ closing rest _ h hothers ih =>
    rw [splitFrom_of_element h] at hkept ⊢
    split at hkept
    · next hholds =>
      rw [if_pos hholds]
      cases before with
      | nil =>
        rw [List.nil_append, List.cons.injEq, Prod.mk.injEq] at hkept
        -- this is the body of the element, and the closing tag starts the next gap
        obtain ⟨⟨rfl, rfl⟩, rfl⟩ := hkept
        have hbehind := page_splitFrom hothers closing.reverse
        rw [List.reverse_reverse] at hbehind
        show IsKept _ _ (splitFrom closing.reverse 0 0 rest).page
        rw [hbehind]
        exact h.isKept hholds _
      | cons first before =>
        rw [List.cons_append, List.cons.injEq] at hkept
        exact ih _ hkept.2
    · next hholds =>
      rw [if_neg hholds]
      exact ih _ hkept

end

/-! ## Lines -/

@[simp] theorem lineFeeds_append (a b : Text) :
    Text.lineFeeds (a ++ b) = Text.lineFeeds a + Text.lineFeeds b :=
  List.countP_append

/-- A gap keeps its line feeds. -/
@[simp] theorem lineFeeds_blank (gap : Text) : Text.lineFeeds (blank gap) = Text.lineFeeds gap := by
  rw [blank, lineFeeds_append]
  simp [Text.lineFeeds, List.countP_replicate, CodePoint.is, CodePoint.ofChar]

theorem mem_blank {gap : Text} {c : CodePoint} (h : c ∈ blank gap) :
    c = .ofChar '\n' ∨ c = .ofChar ';' := by
  rcases List.mem_append.mp h with hfeed | hsemicolon
  · exact .inl (List.eq_of_mem_replicate hfeed)
  · exact .inr (List.mem_singleton.mp hsemicolon)

@[simp] theorem lineFeeds_codeKept (kept : List (Text × Text)) :
    Text.lineFeeds (codeKept kept) = Text.lineFeeds (joinKept kept) := by
  induction kept with
  | nil => rfl
  | cons part kept ih =>
    obtain ⟨gap, body⟩ := part
    show Text.lineFeeds (blank gap ++ body ++ codeKept kept) = Text.lineFeeds (gap ++ body ++ joinKept kept)
    simp [ih]

/-- **Scripts keep their place.** Every page is gaps and bodies in turn, and its script text is the same
with every gap replaced by its line feeds and a semicolon. Each body is that of a script element that is
kept: the gap before it ends with the opening tag, no closing tag stands in it, and one follows it. The
bodies are exactly those of the elements found from left to right whose attributes let them be kept, each
at its position. Hence the script text has as many line feeds as the page, every position in a body has as
many before it in the script text as in the page, and outside the bodies there is nothing but line feeds
and semicolons. -/
theorem split_keeps_scripts (page : Text) :
    (split page).page = page ∧
    code page = codeKept (split page).kept ++ blank (split page).tail ∧
    (∀ before gap body after, (split page).kept = before ++ (gap, body) :: after →
      IsKept gap body (joinKept after ++ (split page).tail)) ∧
    (∃ found, Finds 0 page found) ∧
    (∀ found, Finds 0 page found → bodiesFrom 0 (split page).kept = keptBodies found) ∧
    Text.lineFeeds (code page) = Text.lineFeeds page ∧
    (∀ before gap start rest after, (split page).kept = before ++ (gap, start ++ rest) :: after →
      ∃ pageRest codeRest,
        page = (joinKept before ++ (gap ++ start)) ++ (rest ++ pageRest) ∧
        code page = (codeKept before ++ (blank gap ++ start)) ++ (rest ++ codeRest) ∧
        Text.lineFeeds (codeKept before ++ (blank gap ++ start)) =
          Text.lineFeeds (joinKept before ++ (gap ++ start))) ∧
    ∀ gap ∈ (split page).gaps, ∀ c ∈ blank gap, c = .ofChar '\n' ∨ c = .ofChar ';' := by
  obtain ⟨found, hfound⟩ := exists_finds 0 page
  have hpage : (split page).page = page := page_splitFrom hfound []
  have hcode : code page = codeKept (split page).kept ++ blank (split page).tail := rfl
  refine ⟨hpage, hcode, ?_, ⟨found, hfound⟩, ?_, ?_, ?_, ?_⟩
  · intro before gap body after hkept
    exact isKept_splitFrom hfound [] hkept
  · intro others hothers
    exact bodiesFrom_splitFrom hothers [] 0 rfl
  · have hfeeds := congrArg Text.lineFeeds hpage
    simpa [hcode, Parts.page] using hfeeds
  · intro before gap start rest after hkept
    refine ⟨joinKept after ++ (split page).tail, codeKept after ++ blank (split page).tail, ?_, ?_, ?_⟩
    -- the page, cut inside the body
    · nth_rewrite 1 [← hpage]
      rw [Parts.page, hkept]
      simp [joinKept]
    · rw [hcode, hkept]
      simp [codeKept]
    · simp
  · exact fun gap _ c hc => mem_blank hc

/-- A page with a script that is kept behind one that is not. -/
def mixedPage : Text := "<script type=x>p</script>\n<script>q\nr</script>"

/-- A page with a script of another type in front: its element stands in the gap, and a position in the second
line of the body is in the third line of the page and of the script text. -/
theorem split_keeps_scripts_mixedPage :
    (split mixedPage).kept = ([("<script type=x>p</script>\n<script>", "q\nr")] : List (Text × Text)) ∧
    IsKept "<script type=x>p</script>\n<script>" "q\nr" "</script>" ∧
    ∃ pageRest codeRest : Text, mixedPage = "<script type=x>p</script>\n<script>q\n" ++ ("r" ++ pageRest) ∧
      code mixedPage = "\n;q\n" ++ ("r" ++ codeRest) ∧
      Text.lineFeeds "\n;q\n" = Text.lineFeeds "<script type=x>p</script>\n<script>q\n" := by
  have hkept : (split mixedPage).kept =
      ([("<script type=x>p</script>\n<script>", "q\nr")] : List (Text × Text)) := by
    rfl
  have htail : (split mixedPage).tail = ("</script>" : Text) := by rfl
  obtain ⟨-, -, hbodies, -, -, -, hpositions, -⟩ := split_keeps_scripts mixedPage
  have hbody := hbodies [] _ _ [] hkept
  rw [htail] at hbody
  obtain ⟨pageRest, codeRest, hpage, hcode, hfeeds⟩ := hpositions [] _ "q\n" "r" [] hkept
  exact ⟨hkept, hbody, pageRest, codeRest, hpage, hcode, hfeeds⟩

/-! ## A comment to the end of the line -/

/-- What messages tell: their places and texts. -/
def told (found : Except Error (List Message)) : Option (List (Text × Option Text)) :=
  found.toOption.map fun messages => messages.map fun m => (m.location, m.payload.text?)

/-- A page whose first script ends with a comment. -/
def openNote : Text := "<script>a() // x</script><script>__('b')</script>"

/-- **A message that is lost.** Each of the two scripts of the page can be parsed on its own, and the second
one has a message; the page can be parsed and has none. -/
theorem told_openNote :
    let alone : Extraction := { markers := [["__"]], registry := [("HTML", Registry.script)] }
    (split openNote).kept.map Prod.snd = (["a() // x", "__('b')"] : List Text) ∧
    told (alone.rawMessages "a.html" "a() // x") = some [] ∧
    told (alone.rawMessages "a.html" "__('b')") =
      some [(("#: a.html:1" : Text), some ("b" : Text))] ∧
    told (Extraction.rawMessages { markers := [["__"]] } "a.html" openNote) = some [] := by
  decide +kernel

end Phrasebook.Page
