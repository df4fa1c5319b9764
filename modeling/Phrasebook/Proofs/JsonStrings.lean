import Phrasebook.Proofs.SurrogatePairs

/-!
# Phrasebook — quoted strings as JSON

A quoted string of a template is also a JSON document. The reader here follows the JSON rules for a
document that is one string: blanks may stand around it, a backslash comes before one of eight letters
or before `u` with four hexadecimal digits, and control characters must not stand bare. The four digits
write a UTF-16 code unit, so that two of them in a row can be the halves of a pair. Only units written
with digits are joined; half of a pair that stands bare stays as it is.

* `Json.string?` — the text of a JSON document that is a string;
* `Json.string?_quote` — reading a quoted string gives back the text, with its pairs joined.
-/

namespace Phrasebook.Json

/-! ## The reader -/

/-- One position of a string. -/
inductive Item where
  /-- A code point that stands bare or behind a backslash. -/
  | plain (c : CodePoint)
  /-- A code unit written with four digits. -/
  | unit (c : CodePoint)
deriving DecidableEq

/-- The blanks that may stand around a string. -/
def isSpace (c : CodePoint) : Bool := c.is ' ' || c.is '\n' || c.is '\r' || c.is '\t'

/-- What a letter behind a backslash stands for. -/
def letter? (c : CodePoint) : Option CodePoint :=
  if c.is '\x22' || c.is '\\' || c.is '/' then some c
  else if c.is 'b' then some (.ofChar '\x08')
  else if c.is 'f' then some (.ofChar '\x0C')
  else if c.is 'n' then some (.ofChar '\n')
  else if c.is 'r' then some (.ofChar '\r')
  else if c.is 't' then some (.ofChar '\t')
  else none

/-- What stands behind a backslash, and how many code points it takes. -/
def escape? : Text → Option (Item × Nat)
  | [] => none
  | letter :: rest =>
    if letter.is 'u' then
      ((Escape.fixedDigits? 16 4 rest).bind CodePoint.ofNat?).map fun c => (.unit c, 5)
    else (letter? letter).map fun c => (.plain c, 1)

/-- The positions of a string after the next `taken` code points, which belong to an escape. The string
ends with a quote, behind which only blanks may follow. -/
def itemsFrom? : Nat → Text → Option (List Item)
  | _, [] => none
  | taken + 1, _ :: rest => itemsFrom? taken rest
  | 0, c :: rest =>
    if c.is '\x22' then if rest.all isSpace then some [] else none
    else if c.is '\\' then
      match escape? rest with
      | some (item, length) => (itemsFrom? length rest).map (item :: ·)
      | none => none
    else if c.val < 0x20 then none
    else (itemsFrom? 0 rest).map (.plain c :: ·)

/-- The positions of a string, given what stands behind its opening quote. -/
def items? (t : Text) : Option (List Item) := itemsFrom? 0 t

/-- The text of positions: the two units of a pair are one code point. -/
def join : List Item → Text
  | [] => []
  | .unit high :: .unit low :: rest =>
    match CodePoint.ofPair? high low with
    | some c => c :: join rest
    | none => high :: join (.unit low :: rest)
  | .unit c :: rest => c :: join rest
  | .plain c :: rest => c :: join rest

/-- The text of a document that is a string. -/
def string? (document : Text) : Option Text :=
  match document.dropWhile isSpace with
  | [] => none
  | c :: t => if c.is '\x22' then (items? t).map join else none

/-! ## One code point -/

/-- The code point of a position. -/
def Item.codePoint : Item → CodePoint
  | .plain c => c
  | .unit c => c

/-- A position from which nothing can be lost by joining: half of a pair is written with digits. -/
def Item.Joinable (item : Item) : Prop := item.codePoint.isSurrogate = true → item = .unit item.codePoint

theorem itemsFrom?_append (taken t : Text) : itemsFrom? taken.length (taken ++ t) = items? t := by
  induction taken with
  | nil => rfl
  | cons c taken ih => exact ih

theorem items?_plain {c : CodePoint} (hquote : c.is '\x22' = false) (hbackslash : c.is '\\' = false)
    (hcontrol : 0x20 ≤ c.val) (t : Text) : items? (c :: t) = (items? t).map (.plain c :: ·) := by
  rw [items?, itemsFrom?, if_neg (ne_true_of_eq_false hquote), if_neg (ne_true_of_eq_false hbackslash),
    if_neg (by omega)]
  rfl

theorem items?_escape {taken : Text} {item : Item} {t : Text}
    (h : escape? (taken ++ t) = some (item, taken.length)) :
    items? (.ofChar '\\' :: (taken ++ t)) = (items? t).map (item :: ·) := by
  rw [items?, itemsFrom?, if_neg (by decide), if_pos (by decide), h]
  exact congrArg (Option.map (item :: ·)) (itemsFrom?_append taken t)

/-- A number written with four digits behind `u` is read as that code unit. -/
theorem items?_hex_four {c : CodePoint} (h : c.val < 0x10000) (t : Text) :
    items? ((("\\u" : Text) ++ Text.ofChars (Value.hex 4 c.val)) ++ t) =
      (items? t).map (.unit c :: ·) := by
  -- the four digits in base 16, the highest first
  have hd3 := Escape.digit?_digitChar (c.val / 4096) (by omega)
  have hd2 := Escape.digit?_digitChar (c.val / 256 % 16) (by omega)
  have hd1 := Escape.digit?_digitChar (c.val / 16 % 16) (by omega)
  have hd0 := Escape.digit?_digitChar (c.val % 16) (by omega)
  have hvalue : ((c.val / 4096 * 16 + c.val / 256 % 16) * 16 + c.val / 16 % 16) * 16 + c.val % 16 =
      c.val := by omega
  have hescape : escape? ((.ofChar 'u' :: Text.ofChars (Value.hex 4 c.val)) ++ t) =
      some (.unit c, (CodePoint.ofChar 'u' :: Text.ofChars (Value.hex 4 c.val)).length) := by
    rw [Escape.hex_four h]
    simp only [Text.ofChars, List.map_cons, List.map_nil, List.cons_append, List.nil_append, escape?]
    rw [if_pos (by rfl)]
    simp [Escape.fixedDigits?, Escape.readDigits?, hd3, hd2, hd1, hd0, hvalue, CodePoint.ofNat?, c.isLt]
  exact items?_escape hescape

/-- **One code point, one position.** Whatever a code point becomes inside a quoted string is read as one
position with that code point, and half of a pair is written with digits. -/
theorem exists_item_quotedCodePoint (c : CodePoint) :
    ∃ item : Item, item.codePoint = c ∧ item.Joinable ∧
      ∀ t, items? (Template.quotedCodePoint c ++ t) = (items? t).map (item :: ·) := by
  rcases Template.quotedCodePoint_cases c with ⟨letter, hletter, hform⟩ | ⟨hlow, hform⟩ | ⟨hge, hbackslash, hform⟩
  · have hread : ∀ p ∈ Template.letters, (CodePoint.ofChar p.1).is 'u' = false ∧
        letter? (.ofChar p.1) = some p.2 ∧ p.2.isSurrogate = false := by
      decide
    obtain ⟨hu, hc, hsurrogate⟩ := hread (letter, c) hletter
    refine ⟨.plain c, rfl, ?_, ?_⟩
    · intro hhalf
      rw [Item.codePoint, hsurrogate] at hhalf
      cases hhalf
    · intro t
      -- no letter of the table is `u`, which would call for digits
      have hescape : escape? ([.ofChar letter] ++ t) = some (.plain c, 1) := by
        show (if (CodePoint.ofChar letter).is 'u' then _ else _) = _
        rw [hu, if_neg Bool.false_ne_true, hc]
        rfl
      rw [hform]
      exact items?_escape hescape
  · refine ⟨.unit c, rfl, fun _ => rfl, ?_⟩
    intro t
    rw [hform]
    exact items?_hex_four (by omega) t
  · rw [hform, Template.writable]
    split
    · next hsurrogate =>
      have hlt : c.val < 0x10000 := by
        simp only [CodePoint.isSurrogate, Bool.and_eq_true, decide_eq_true_eq] at hsurrogate
        omega
      exact ⟨.unit c, rfl, fun _ => rfl, fun t => items?_hex_four hlt t⟩
    · next hsurrogate =>
      refine ⟨.plain c, rfl, fun hhalf => absurd hhalf hsurrogate, ?_⟩
      -- a bare quote has been escaped
      have hquote : c.is '\x22' = false := by
        rw [Bool.eq_false_iff]
        intro hc
        rw [CodePoint.is_iff.mp hc] at hform
        revert hform
        decide
      exact fun t => items?_plain hquote hbackslash hge t

/-! ## A whole string -/

/-- A quoted text up to the closing quote is read as positions with its code points, among which every half of a
pair is written with digits. -/
theorem exists_items_quoted (s : Text) :
    ∃ items : List Item, items.map Item.codePoint = s ∧ (∀ item ∈ items, item.Joinable) ∧
      items? (s.flatMap Template.quotedCodePoint ++ [.ofChar '\x22']) = some items := by
  induction s with
  | nil => exact ⟨[], rfl, by simp, rfl⟩
  | cons c s ih =>
    -- the position of a code point is read whatever follows it
    obtain ⟨items, hmap, hjoinable, hread⟩ := ih
    obtain ⟨item, hitem, hone, hstep⟩ := exists_item_quotedCodePoint c
    refine ⟨item :: items, ?_, List.forall_mem_cons.mpr ⟨hone, hjoinable⟩, ?_⟩
    · rw [List.map_cons, hitem, hmap]
    · rw [List.flatMap_cons, List.append_assoc, hstep, hread]
      rfl

theorem joinPairs_cons {c : CodePoint} {t : Text}
    (h : ∀ d ∈ t.head?, ¬ (c.isHigh = true ∧ d.isLow = true)) :
    Text.joinPairs (c :: t) = c :: Text.joinPairs t := by
  cases t with
  | nil => rfl
  | cons d t => rw [Text.joinPairs, CodePoint.ofPair?_eq_none_iff.mpr (h d rfl)]

/-- A code point that stands bare is no half of a pair. -/
theorem Item.Joinable.plain {c : CodePoint} (h : (Item.plain c).Joinable) :
    c.isHigh = false ∧ c.isLow = false := by
  refine CodePoint.not_half_of_not_isSurrogate ?_
  rw [Bool.eq_false_iff]
  intro hhalf
  cases h hhalf

/-- Where every half of a pair is written with digits, joining units is joining pairs. -/
theorem join_eq_joinPairs {items : List Item} (h : ∀ item ∈ items, item.Joinable) :
    join items = Text.joinPairs (items.map Item.codePoint) := by
  -- a unit joins with a unit only, a code point with any low surrogate; bare ones are no surrogates
  fun_induction join items with
  | case1 => rfl
  | case2 high low rest c hpair ih =>
    obtain ⟨-, hlater⟩ := List.forall_mem_cons.mp h
    obtain ⟨-, hothers⟩ := List.forall_mem_cons.mp hlater
    simp only [List.map_cons, Item.codePoint, Text.joinPairs, hpair, ih hothers]
  | case3 high low rest hpair ih =>
    obtain ⟨-, hlater⟩ := List.forall_mem_cons.mp h
    simp only [List.map_cons, Item.codePoint] at ih ⊢
    simp only [Text.joinPairs, hpair, ih hlater]
  | case4 c rest hrest ih =>
    obtain ⟨-, hothers⟩ := List.forall_mem_cons.mp h
    rw [List.map_cons, Item.codePoint, joinPairs_cons, ih hothers]
    -- what follows is no unit, hence no half of a pair
    rintro d hd ⟨-, hlow⟩
    cases rest with
    | nil => cases hd
    | cons item rest =>
      rw [List.map_cons, List.head?_cons, Option.mem_some_iff] at hd
      cases item with
      | unit low => exact hrest low rest rfl
      | plain p =>
        rw [← hd, Item.codePoint, (hothers _ List.mem_cons_self).plain.2] at hlow
        cases hlow
  | case5 c rest ih =>
    obtain ⟨hfirst, hothers⟩ := List.forall_mem_cons.mp h
    -- a bare code point starts no pair
    rw [List.map_cons, Item.codePoint, joinPairs_cons, ih hothers]
    rintro d - ⟨hhigh, -⟩
    rw [hfirst.plain.1] at hhigh
    cases hhigh

/-- **Quoting is undone by a JSON reader**, which joins the pairs of the text. -/
theorem string?_quote (s : Text) : string? (Template.quote s) = some s.joinPairs := by
  obtain ⟨items, hmap, hjoinable, hread⟩ := exists_items_quoted s
  -- a quoted string starts with its quote, so that no blanks are dropped
  have hspace : (Template.quote s).dropWhile isSpace = Template.quote s := rfl
  rw [string?, hspace]
  show (if (CodePoint.ofChar '\x22').is '\x22' then
    (items? (s.flatMap Template.quotedCodePoint ++ [.ofChar '\x22'])).map join else none) = _
  rw [if_pos (by decide), hread, Option.map_some, join_eq_joinPairs hjoinable, hmap]

end Phrasebook.Json
