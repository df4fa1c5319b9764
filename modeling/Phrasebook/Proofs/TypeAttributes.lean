import Mathlib.Data.List.Nodup
import Phrasebook.Proofs.Scripts

/-!
# Phrasebook — the type of a script element

Whether a script element is kept is decided by a search through the text of its attributes, which is never cut
into attributes. The search looks for the word `type` before an equals sign. In attributes that are written
one by one, names and values hold no equals sign, so that only the end of a name can be found; a hyphen ends
a word, so besides `type` the names that end with `-type` are found as well. An empty value is passed over.

So a page loses a script with an attribute such as `data-type`, which says nothing about its language. If
there is no such attribute, only the one named `type` counts, wherever it stands.

Main results:

* `Page.findType?_name` — where the search finds something in an attribute;
* `Page.findType?_attributes` — what it finds in a list of attributes;
* `Page.holdsScript_of_attributes` — which script elements are kept;
* `Page.holdsScript_dataType` — a script that is lost.
-/

namespace Phrasebook.Page

/-! ## Attributes -/

/-- A name and a value. -/
structure Attribute where
  name : Text
  value : Text
deriving DecidableEq

/-- The types that let a script element be kept. -/
def isScriptType (value : Text) : Bool :=
  let lower := value.map CodePoint.asciiLower
  ("javascript" : Text).isSuffixOf lower || scriptTypes.contains lower

/-- An ASCII letter or a hyphen. -/
def isNameCodePoint (c : CodePoint) : Bool := c.within 'a' 'z' || c.within 'A' 'Z' || c.is '-'

/-- Anything but quotes, `>`, the equals sign and blanks. -/
def isValueCodePoint (c : CodePoint) : Bool :=
  !(c.is '\x22' || c.is '\x27' || c.is '>' || c.is '=' || c.isBlank)

namespace Attribute

/-- The name is made of ASCII letters and hyphens, and the value can stand in quotes. -/
structure IsPlain (a : Attribute) : Prop where
  name  : ∀ c ∈ a.name, isNameCodePoint c = true
  value : ∀ c ∈ a.value, isValueCodePoint c = true

/-- An attribute as it is written in a tag. -/
def text (a : Attribute) : Text := a.name ++ .ofChar '=' :: .ofChar '\x22' :: (a.value ++ [.ofChar '\x22'])

def lowerName (a : Attribute) : Text := a.name.map CodePoint.asciiLower

/-- Whether the name ends with the word `type`. -/
def endsWithType (a : Attribute) : Bool := a.lowerName == "type" || ("-type" : Text).isSuffixOf a.lowerName

end Attribute

/-- Attributes with spaces between them. -/
def attributesText (attributes : List Attribute) : Text := Text.joinWith " " (attributes.map Attribute.text)

/-! ## The word `type` -/

/-- A text spells the word exactly if this is its lower case. -/
theorem spells_type_iff {t : Text} : Spells "type".toList t ↔ t.map CodePoint.asciiLower = "type" := by
  have hletter : ∀ letter ∈ "type".toList, ∀ c, folds letter c = true ↔ c.asciiLower = .ofChar letter := by
    intro letter hletter c
    have hword : ("type".toList.all fun letter => !(letter == 's') && !(letter == 'i')) = true := by decide
    have hs : (letter == 's') = false ∧ (letter == 'i') = false := by
      simpa using List.all_eq_true.mp hword letter hletter
    -- no letter of the word is the case-folding of a letter beyond ASCII
    rw [folds, hs.1, hs.2, Bool.false_and, Bool.false_and, Bool.or_false, Bool.or_false, CodePoint.is_iff]
  show List.Forall₂ (fun letter c => folds letter c = true) _ _ ↔ _ = "type".toList.map CodePoint.ofChar
  generalize "type".toList = word at hletter
  induction word generalizing t with
  | nil => simp
  | cons letter word ih =>
    obtain ⟨hfirst, hothers⟩ := List.forall_mem_cons.mp hletter
    cases t with
    | nil => simp
    | cons c t => rw [List.forall₂_cons, hfirst, ih hothers, List.map_cons, List.map_cons, List.cons.injEq]

/-- What an equals sign behind the word starts, if one stands there. -/
def behindType? (t : Text) : Option Text := do
  let behind ← dropWord? "type".toList t
  dropMark? '=' (dropBlanks behind)

/-- A quote of either kind. -/
def isQuote (c : CodePoint) : Bool := c.is '\x22' || c.is '\x27'

/-- What stands before the first code point that ends a value. -/
def takeValue (t : Text) : Text := t.takeWhile fun c => !(isQuote c || c.isBlank || c.is '>')

/-- The value at the start of what stands behind the equals sign. -/
def valueAt? (t : Text) : Option Text :=
  let value := dropBlanks t
  let found := takeValue (if value.head?.any isQuote then value.drop 1 else value)
  if found.isEmpty then none else some found

theorem typeValue?_eq_bind (t : Text) : typeValue? t = (behindType? t).bind valueAt? := by
  unfold typeValue? behindType?
  cases dropWord? "type".toList t with
  | none => rfl
  | some behind =>
    show (dropMark? '=' (dropBlanks behind)).bind _ = (dropMark? '=' (dropBlanks behind)).bind _
    rfl

/-- **One place for the equals sign**: behind code points that are no blanks and no equals signs, the word has
to be all of them. -/
theorem behindType?_append {part : Text} (hpart : ∀ c ∈ part, c.isBlank = false ∧ c.is '=' = false)
    {mark : Char} (hmark : mark = '=' ∨ mark = '\x22') (rest : Text) :
    behindType? (part ++ .ofChar mark :: rest) =
      if part.map CodePoint.asciiLower = "type" then dropMark? '=' (.ofChar mark :: rest) else none := by
  have hblank : (CodePoint.ofChar mark).isBlank = false := by
    rcases hmark with rfl | rfl <;> decide
  have hletter : (CodePoint.ofChar mark).asciiLower ∉ ("type" : Text) := by
    rcases hmark with rfl | rfl <;> decide
  unfold behindType?
  cases hdrop : dropWord? "type".toList (part ++ .ofChar mark :: rest) with
  | none =>
    rw [if_neg]
    · rfl
    · intro htype
      rw [dropWord?_eq_some_iff.mpr ⟨part, spells_type_iff.mpr htype, rfl⟩] at hdrop
      cases hdrop
  | some behind =>
    obtain ⟨word, hword, htext⟩ := dropWord?_eq_some_iff.mp hdrop
    have hlower := spells_type_iff.mp hword
    have hstop : dropBlanks (.ofChar mark :: rest) = .ofChar mark :: rest := by
      simp [dropBlanks, hblank]
    show dropMark? '=' (dropBlanks behind) = _
    rcases List.append_eq_append_iff.mp htext with ⟨more, rfl, hmore⟩ | ⟨more, rfl, rfl⟩
    · cases more with
      | nil =>
        rw [List.append_nil] at hlower
        rw [List.nil_append] at hmore
        rw [if_pos hlower, ← hmore, hstop]
      | cons c more =>
        -- the mark would be a letter of the word
        obtain ⟨rfl, -⟩ := List.cons.inj hmore
        refine absurd ?_ hletter
        rw [← hlower]
        exact List.mem_map_of_mem (List.mem_append_right _ List.mem_cons_self)
    · cases more with
      | nil =>
        rw [List.nil_append, List.append_nil, if_pos hlower, hstop]
      | cons c more =>
        obtain ⟨hc, hequals⟩ := hpart c (List.mem_append_right _ List.mem_cons_self)
        have hlonger : (word ++ c :: more).map CodePoint.asciiLower ≠ "type" := by
          rw [List.map_append, hlower]
          intro hsame
          have hlength := congrArg List.length hsame
          simp at hlength
        rw [if_neg hlonger, dropBlanks, List.cons_append, List.dropWhile_cons_of_neg (by simp [hc]), dropMark?,
          hequals]
        rfl

/-! ## One attribute -/

theorem isNameCodePoint_iff {c : CodePoint} :
    isNameCodePoint c = true ↔ (0x61 ≤ c.val ∧ c.val ≤ 0x7A) ∨ (0x41 ≤ c.val ∧ c.val ≤ 0x5A) ∨ c.val = 0x2D := by
  simp only [isNameCodePoint, CodePoint.within, CodePoint.is, Char.reduceToNat, Bool.or_eq_true,
    Bool.and_eq_true, decide_eq_true_eq, beq_iff_eq, or_assoc]

theorem of_isNameCodePoint {c : CodePoint} (h : isNameCodePoint c = true) :
    c.isBlank = false ∧ c.is '=' = false := by
  rw [isNameCodePoint_iff] at h
  simp only [CodePoint.isBlank, CodePoint.is, Char.reduceToNat, Bool.or_eq_false_iff, Bool.and_eq_false_iff,
    decide_eq_false_iff_not, beq_eq_false_iff_ne]
  omega

/-- In a name only the hyphen ends a word. -/
theorem isWord_of_isNameCodePoint {c : CodePoint} (h : isNameCodePoint c = true) :
    c.isWord = false ↔ c = .ofChar '-' := by
  rw [← CodePoint.is_iff]
  rw [isNameCodePoint_iff] at h
  have hsmall : c.val < 0x80 := by omega
  simp only [CodePoint.isWord, hsmall, if_true, CodePoint.within, CodePoint.is, Char.reduceToNat,
    Bool.or_eq_false_iff, Bool.and_eq_false_iff, decide_eq_false_iff_not, beq_eq_false_iff_ne, beq_iff_eq]
  omega

theorem asciiLower_eq_hyphen_iff {c : CodePoint} : c.asciiLower = .ofChar '-' ↔ c = .ofChar '-' := by
  rw [← CodePoint.is_iff, ← CodePoint.is_iff]
  simp only [CodePoint.is, CodePoint.asciiLower, Char.reduceToNat, beq_iff_eq]
  split
  · simp only [Bool.and_eq_true, decide_eq_true_eq]
    split <;> omega
  · rfl

theorem of_isValueCodePoint {c : CodePoint} (h : isValueCodePoint c = true) :
    (c.is '\x22' = false ∧ c.is '\x27' = false) ∧ c.is '>' = false ∧ c.isBlank = false ∧ c.is '=' = false := by
  simpa [isValueCodePoint, and_assoc, and_comm, and_left_comm] using h

theorem takeValue_append_quote {value : Text} (h : ∀ c ∈ value, isValueCodePoint c = true) (rest : Text) :
    takeValue (value ++ .ofChar '\x22' :: rest) = value := by
  rw [takeValue, List.takeWhile_append_of_pos, List.takeWhile_cons_of_neg (by decide), List.append_nil]
  intro c hc
  obtain ⟨⟨hdouble, hsingle⟩, hend, hblank, -⟩ := of_isValueCodePoint (h c hc)
  simp [isQuote, hdouble, hsingle, hend, hblank]

/-- A value in quotes is read to its end. An empty one is not found. -/
theorem valueAt?_quoted {value : Text} (h : ∀ c ∈ value, isValueCodePoint c = true) (rest : Text) :
    valueAt? (.ofChar '\x22' :: (value ++ .ofChar '\x22' :: rest)) =
      if value.isEmpty then none else some value := by
  -- the opening quote is dropped
  show (if (takeValue (value ++ .ofChar '\x22' :: rest)).isEmpty then none else
    some (takeValue (value ++ .ofChar '\x22' :: rest))) = _
  rw [takeValue_append_quote h]

/-- In a value the word cannot stand before an equals sign: this would have to follow the closing quote. -/
theorem typeValue?_append_quote {part : Text} (h : ∀ c ∈ part, isValueCodePoint c = true) (rest : Text) :
    typeValue? (part ++ .ofChar '\x22' :: rest) = none := by
  have hplain : ∀ c ∈ part, c.isBlank = false ∧ c.is '=' = false := fun c hc => (of_isValueCodePoint (h c hc)).2.2
  rw [typeValue?_eq_bind, behindType?_append hplain (.inr rfl)]
  split <;> rfl

/-- At the rest of a name, the word stands before the equals sign if it is this rest. -/
theorem typeValue?_append_equals {part value : Text} (h : ∀ c ∈ part, isNameCodePoint c = true)
    (hvalue : ∀ c ∈ value, isValueCodePoint c = true) (rest : Text) :
    typeValue? (part ++ .ofChar '=' :: .ofChar '\x22' :: (value ++ .ofChar '\x22' :: rest)) =
      if part.map CodePoint.asciiLower = "type" ∧ value ≠ [] then some value else none := by
  have hplain : ∀ c ∈ part, c.isBlank = false ∧ c.is '=' = false := fun c hc => of_isNameCodePoint (h c hc)
  rw [typeValue?_eq_bind, behindType?_append hplain (.inl rfl)]
  by_cases hlower : part.map CodePoint.asciiLower = "type"
  · rw [if_pos hlower]
    show valueAt? _ = _
    rw [valueAt?_quoted hvalue]
    by_cases hempty : value = [] <;> simp [hlower, hempty]
  · simp [hlower]

theorem findType?_cons_of_some {c : CodePoint} {t value : Text} (h : typeValue? (c :: t) = some value) :
    findType? false (c :: t) = some value := by
  rw [findType?, if_neg Bool.false_ne_true, h]

/-- Where no equals sign stands behind the word, the search goes on. -/
theorem findType?_cons_of_none {c : CodePoint} {t : Text} {inWord : Bool}
    (h : inWord = false → typeValue? (c :: t) = none) : findType? inWord (c :: t) = findType? c.isWord t := by
  cases inWord with
  | true => rw [findType?, if_pos rfl]
  | false => rw [findType?, if_neg Bool.false_ne_true, h rfl]

/-- Nothing is found in a value. -/
theorem findType?_value {value : Text} (h : ∀ c ∈ value, isValueCodePoint c = true) (inWord : Bool)
    (rest : Text) : findType? inWord (value ++ .ofChar '\x22' :: rest) = findType? false rest := by
  induction value generalizing inWord with
  | nil => exact findType?_cons_of_none fun _ => typeValue?_append_quote h rest
  | cons c value ih =>
    obtain ⟨-, hvalue⟩ := List.forall_mem_cons.mp h
    have hskip : findType? inWord (c :: (value ++ .ofChar '\x22' :: rest)) = _ :=
      findType?_cons_of_none fun _ => typeValue?_append_quote h rest
    exact hskip.trans (ih hvalue _)

/-- The word ends a name behind its first code point, or is all of it behind a hyphen. -/
theorem isSuffix_type_cons_iff {c : CodePoint} (hc : isNameCodePoint c = true) {name : Text} :
    ("-type" : Text) <:+ (c :: name).map CodePoint.asciiLower ↔
      (c.isWord = false ∧ name.map CodePoint.asciiLower = "type") ∨
        ("-type" : Text) <:+ name.map CodePoint.asciiLower := by
  have hall : ("-type" : Text) = c.asciiLower :: name.map CodePoint.asciiLower ↔
      c.isWord = false ∧ name.map CodePoint.asciiLower = "type" := by
    rw [isWord_of_isNameCodePoint hc, ← asciiLower_eq_hyphen_iff, eq_comm]
    exact List.cons_eq_cons
  rw [List.map_cons, List.suffix_cons_iff, hall]

/-- **What is found in an attribute**: its value, if this is not empty and the name ends with `type` where a
word starts. `inWord` says that the name follows a word code point. -/
theorem findType?_name {name value : Text} (hname : ∀ c ∈ name, isNameCodePoint c = true)
    (hvalue : ∀ c ∈ value, isValueCodePoint c = true) (inWord : Bool) (rest : Text) :
    findType? inWord (name ++ .ofChar '=' :: .ofChar '\x22' :: (value ++ .ofChar '\x22' :: rest)) =
      if ((inWord = false ∧ name.map CodePoint.asciiLower = "type") ∨
          ("-type" : Text) <:+ name.map CodePoint.asciiLower) ∧ value ≠ [] then some value
      else findType? false rest := by
  -- the search goes through the name, and stays in a word until it meets a hyphen
  induction name generalizing inWord with
  | nil =>
    have hequals : findType? inWord
        (.ofChar '=' :: .ofChar '\x22' :: (value ++ .ofChar '\x22' :: rest)) = _ :=
      findType?_cons_of_none fun _ => @typeValue?_append_equals [] value hname hvalue rest
    have hquote : findType? (CodePoint.ofChar '=').isWord
        (.ofChar '\x22' :: (value ++ .ofChar '\x22' :: rest)) = _ :=
      findType?_cons_of_none fun _ => @typeValue?_append_quote [] (List.forall_mem_nil _) _
    rw [List.nil_append, hequals, hquote, findType?_value hvalue, if_neg]
    rintro ⟨⟨-, htype⟩ | hhyphen, -⟩
    · cases htype
    · cases List.suffix_nil.mp hhyphen
  | cons c name ih =>
    obtain ⟨hc, hothers⟩ := List.forall_mem_cons.mp hname
    have htype := typeValue?_append_equals hname hvalue rest
    by_cases hfound : inWord = false ∧ (c :: name).map CodePoint.asciiLower = "type" ∧ value ≠ []
    · obtain ⟨rfl, hlower, hne⟩ := hfound
      rw [if_pos ⟨hlower, hne⟩] at htype
      rw [if_pos ⟨.inl ⟨rfl, hlower⟩, hne⟩]
      exact findType?_cons_of_some htype
    · -- the rest of the name decides
      have hskip : findType? inWord
          (c :: (name ++ .ofChar '=' :: .ofChar '\x22' :: (value ++ .ofChar '\x22' :: rest))) = _ :=
        findType?_cons_of_none fun hword => htype.trans (if_neg fun h => hfound ⟨hword, h⟩)
      rw [List.cons_append, hskip, ih hothers]
      refine if_congr ?_ rfl rfl
      rw [isSuffix_type_cons_iff hc]
      tauto

/-! ## Lists of attributes -/

/-- What is found in an attribute, or behind it. -/
theorem findType?_text {a : Attribute} (h : a.IsPlain) (rest : Text) :
    findType? false (a.text ++ rest) =
      if (a.endsWithType && !a.value.isEmpty) = true then some a.value else findType? false rest := by
  have htext : a.text ++ rest =
      a.name ++ .ofChar '=' :: .ofChar '\x22' :: (a.value ++ .ofChar '\x22' :: rest) := by
    simp [Attribute.text]
  rw [htext, findType?_name h.name h.value]
  refine if_congr ?_ rfl rfl
  simp [Attribute.endsWithType, Attribute.lowerName]

/-- **What is found in a list of attributes**: the value of the first one that is not empty and whose name ends
with the word `type`. -/
theorem findType?_attributes {attributes : List Attribute} (h : ∀ a ∈ attributes, a.IsPlain) :
    findType? false (attributesText attributes) =
      (attributes.find? fun a => a.endsWithType && !a.value.isEmpty).map Attribute.value := by
  induction attributes with
  | nil => rfl
  | cons a attributes ih =>
    obtain ⟨ha, hothers⟩ := List.forall_mem_cons.mp h
    -- a space before the next attribute is passed over
    obtain ⟨rest, htext, hrest⟩ : ∃ rest, attributesText (a :: attributes) = a.text ++ rest ∧
        findType? false rest = findType? false (attributesText attributes) := by
      cases attributes with
      | nil => exact ⟨[], (List.append_nil _).symm, rfl⟩
      | cons b attributes =>
        refine ⟨.ofChar ' ' :: attributesText (b :: attributes), List.append_assoc .., ?_⟩
        refine findType?_cons_of_none fun _ => ?_
        rw [typeValue?_eq_bind]
        rfl
    rw [htext, findType?_text ha, hrest, ih hothers, List.find?_cons]
    cases (a.endsWithType && !a.value.isEmpty) <;> rfl

theorem holdsScript_eq_find? {attributes : List Attribute} (h : ∀ a ∈ attributes, a.IsPlain) :
    holdsScript (attributesText attributes) =
      (attributes.find? fun a => a.endsWithType && !a.value.isEmpty).all fun a => isScriptType a.value := by
  rw [holdsScript, findType?_attributes h]
  cases attributes.find? fun a => a.endsWithType && !a.value.isEmpty <;> rfl

/-- Where no name ends with `-type`, the attribute that is found is named `type`. -/
theorem endsWithType_eq {a : Attribute} (h : ¬ ("-type" : Text) <:+ a.lowerName) :
    a.endsWithType = decide (a.lowerName = "type") := by
  have hsuffix : ("-type" : Text).isSuffixOf a.lowerName = false := by
    rw [← Bool.not_eq_true, List.isSuffixOf_iff_suffix]
    exact h
  rw [Attribute.endsWithType, hsuffix, Bool.or_false, Bool.beq_eq_decide_eq]

/-- Where no name ends with `-type` and names are distinct, the attribute named `type` is found wherever it
stands, if its value is not empty. -/
theorem find?_eq_some_iff {attributes : List Attribute} (hnodup : (attributes.map Attribute.lowerName).Nodup)
    (hhyphen : ∀ a ∈ attributes, ¬ ("-type" : Text) <:+ a.lowerName) {a : Attribute} :
    (attributes.find? fun a => a.endsWithType && !a.value.isEmpty) = some a ↔
      a ∈ attributes ∧ a.lowerName = "type" ∧ a.value ≠ [] := by
  have hfound : ∀ b, (attributes.find? fun a => a.endsWithType && !a.value.isEmpty) = some b →
      b ∈ attributes ∧ b.lowerName = "type" ∧ b.value ≠ [] := by
    intro b hb
    have hmem := List.mem_of_find?_eq_some hb
    have hp := List.find?_some hb
    rw [endsWithType_eq (hhyphen b hmem)] at hp
    simpa [hmem] using hp
  refine ⟨hfound a, ?_⟩
  rintro ⟨ha, htype, hne⟩
  cases hfind : attributes.find? fun a => a.endsWithType && !a.value.isEmpty with
  | none =>
    have hmissed := List.find?_eq_none.mp hfind a ha
    simp [endsWithType_eq (hhyphen a ha), htype, hne] at hmissed
  | some b =>
    -- two attributes named `type` are one, since no name occurs twice
    obtain ⟨hb, hbtype, -⟩ := hfound b hfind
    rw [List.inj_on_of_nodup_map hnodup ha hb (htype.trans hbtype.symm)]

/-- **Which script elements are kept.** Let a list of attributes be written with spaces between them, with names
of ASCII letters and hyphens and with values in quotes. The script element is kept unless there is an
attribute whose name ends with the word `type`, where also a hyphen starts a word, and whose value is not
empty, and the first one of these has a value that is no type of scripts. Hence where no name ends with `-type`
and no two names agree up to case, it is kept exactly if there is no attribute named `type`, or if its value is
empty or a type of scripts; the other attributes and the order of all do not count. -/
theorem holdsScript_of_attributes (attributes : List Attribute) (h : ∀ a ∈ attributes, a.IsPlain) :
    holdsScript (attributesText attributes) =
      ((attributes.find? fun a => a.endsWithType && !a.value.isEmpty).all fun a => isScriptType a.value) ∧
    ((attributes.map Attribute.lowerName).Nodup → (∀ a ∈ attributes, ¬ ("-type" : Text) <:+ a.lowerName) →
      (holdsScript (attributesText attributes) = true ↔
        (∀ a ∈ attributes, a.lowerName ≠ "type") ∨
          ∃ a ∈ attributes, a.lowerName = "type" ∧ (a.value = [] ∨ isScriptType a.value = true))) := by
  refine ⟨holdsScript_eq_find? h, ?_⟩
  intro hnodup hhyphen
  rw [holdsScript_eq_find? h, Option.all_eq_true]
  -- what is found is the one attribute named `type`
  simp only [find?_eq_some_iff hnodup hhyphen]
  constructor
  · intro hscript
    by_cases hnone : ∀ a ∈ attributes, a.lowerName ≠ "type"
    · exact .inl hnone
    · push Not at hnone
      obtain ⟨a, ha, htype⟩ := hnone
      refine .inr ⟨a, ha, htype, ?_⟩
      by_cases hempty : a.value = []
      · exact .inl hempty
      · exact .inr (hscript a ⟨ha, htype, hempty⟩)
  · rintro (hnone | ⟨a, ha, htype, hvalue⟩) b ⟨hb, hbtype, hne⟩
    · exact absurd hbtype (hnone b hb)
    · rw [List.inj_on_of_nodup_map hnodup ha hb (htype.trans hbtype.symm)] at hvalue
      exact hvalue.resolve_left hne

/-- A type in capitals between other attributes. -/
def capitalType : List Attribute :=
  [{ name := "src-set", value := "type" }, { name := "TYPE", value := "Text/JavaScript" },
    { name := "data-kind", value := "" }]

/-- The attribute in capitals decides, and not the one with the value `type`. -/
theorem holdsScript_of_attributes_capitalType :
    (∀ a ∈ capitalType, a.IsPlain) ∧ attributesText capitalType =
      "src-set=\"type\" TYPE=\"Text/JavaScript\" data-kind=\"\"" ∧
    (capitalType.map Attribute.lowerName).Nodup ∧ (∀ a ∈ capitalType, ¬ ("-type" : Text) <:+ a.lowerName) ∧
    holdsScript (attributesText capitalType) = true := by
  have hplain : ∀ a ∈ capitalType, a.IsPlain := by
    have hall : ∀ a ∈ capitalType, (∀ c ∈ a.name, isNameCodePoint c = true) ∧
        ∀ c ∈ a.value, isValueCodePoint c = true := by
      decide
    exact fun a ha => ⟨(hall a ha).1, (hall a ha).2⟩
  have hnodup : (capitalType.map Attribute.lowerName).Nodup := by decide
  have hhyphen : ∀ a ∈ capitalType, ¬ ("-type" : Text) <:+ a.lowerName := by decide
  refine ⟨hplain, by decide, hnodup, hhyphen, ?_⟩
  refine ((holdsScript_of_attributes capitalType hplain).2 hnodup hhyphen).mpr (.inr ?_)
  exact ⟨{ name := "TYPE", value := "Text/JavaScript" }, by decide, by decide, .inr (by decide)⟩

/-- **A script that is lost**: no attribute is named `type`, but one is named `data-type`. -/
theorem holdsScript_dataType :
    let attributes : List Attribute := [{ name := "data-type", value := "json" }]
    (∀ a ∈ attributes, (∀ c ∈ a.name, isNameCodePoint c = true) ∧ ∀ c ∈ a.value, isValueCodePoint c = true) ∧
    (∀ a ∈ attributes, a.lowerName ≠ "type") ∧
    attributesText attributes = "data-type=\"json\"" ∧ holdsScript (attributesText attributes) = false := by
  decide +kernel

end Phrasebook.Page
