import Phrasebook.Script.Parse

/-!
# Phrasebook — tokens take what they read

A reader of tokens cuts a text in two: what belongs to the token, and the rest. Nothing is lost between the
two, and a token that is not empty leaves a shorter text.

Main results:

* `Lexeme.name_append`, `Lexeme.tagName_append`, `Lexeme.fragment_append`, `Lexeme.elementText_append` — the two
  parts are the text;
* `Lexeme.length_lt_of_string`, `Lexeme.length_lt_of_attributeString`, `Lexeme.length_le_of_regexFrom`,
  `Lexeme.length_lt_of_operator?` — how much is left behind other tokens;
* `Lexeme.numberLength_pos` — a number has a character.
-/

namespace Phrasebook.Script.Lexeme

/-! ## Names -/

theorem nameFrom_append (first : Bool) (escaped : Nat) (read cs : List Char) :
    (nameFrom first escaped read cs).1 ++ (nameFrom first escaped read cs).2 = read.reverse ++ cs := by
  fun_induction nameFrom first escaped read cs with
  | case1 => rfl
  | case2 _ _ _ _ _ ih | case3 _ _ _ _ _ ih | case4 _ _ _ _ _ _ _ _ ih => simp [ih]
  | case5 | case6 => rfl

@[simp] theorem name_append (cs : List Char) : (name cs).1 ++ (name cs).2 = cs := nameFrom_append true 0 [] cs

theorem length_lt_of_append {taken rest cs : List Char} (h : taken ++ rest = cs) (hne : taken.isEmpty = false) :
    rest.length < cs.length := by
  rw [← h, List.length_append]
  have hpos : 0 < taken.length := List.length_pos_iff.mpr fun hnil => by simp [hnil] at hne
  omega

theorem length_le_of_append {taken rest cs : List Char} (h : taken ++ rest = cs) : rest.length ≤ cs.length := by
  rw [← h, List.length_append]
  exact Nat.le_add_left _ _

theorem length_name_lt {cs : List Char} (h : (name cs).1.isEmpty = false) : (name cs).2.length < cs.length :=
  length_lt_of_append (name_append cs) h

/-- Where a text starts with one particular word, the rest behind the word is shorter. -/
theorem length_lt_of_word {cs word : List Char} (h : ((name cs).1 == word) = true)
    (hword : word.isEmpty = false := by rfl) : (name cs).2.length < cs.length := by
  rw [← beq_iff_eq.mp h] at hword
  exact length_name_lt hword

@[simp] theorem tagName_append (cs : List Char) : (tagName cs).1 ++ (tagName cs).2 = cs := by
  unfold tagName
  dsimp only
  split
  · rw [List.append_assoc, List.takeWhile_append_dropWhile, name_append]
  · exact name_append cs

/-! ## Strings and patterns -/

theorem length_lt_of_stringFrom {quote : Char} {escaped : Nat} {broken : Bool} {read cs taken rest : List Char}
    (h : stringFrom quote escaped broken read cs = .done taken rest) : rest.length < cs.length := by
  fun_induction stringFrom quote escaped broken read cs with
  | case3 | case6 =>
    cases h
    exact Nat.lt_succ_self _
  | case2 _ _ _ _ _ ih | case4 _ _ _ _ _ ih | case7 _ _ _ _ _ _ _ ih | case9 _ _ _ _ _ _ ih
  | case11 _ _ _ _ _ _ _ ih =>
    exact Nat.lt_succ_of_lt (ih h)
  | case1 | case5 | case8 | case10 => cases h

theorem length_lt_of_string {cs taken rest : List Char} (h : string cs = .done taken rest) :
    rest.length < cs.length := by
  cases cs with
  | nil => cases h
  | cons quote cs => exact Nat.lt_succ_of_lt (length_lt_of_stringFrom h)

theorem length_lt_of_attributeFrom {quote : Char} {passed : Nat} {read cs taken rest : List Char}
    (h : attributeFrom quote passed read cs = .done taken rest) : rest.length < cs.length := by
  fun_induction attributeFrom quote passed read cs with
  | case3 =>
    cases h
    exact Nat.lt_succ_self _
  | case2 _ _ _ _ ih | case5 _ _ _ _ _ _ _ _ _ ih | case7 _ _ _ _ _ _ _ ih | case8 _ _ _ _ _ _ ih =>
    exact Nat.lt_succ_of_lt (ih h)
  | case1 | case4 | case6 => cases h

theorem length_lt_of_attributeString {cs taken rest : List Char} (h : attributeString cs = .done taken rest) :
    rest.length < cs.length := by
  cases cs with
  | nil => cases h
  | cons quote cs => exact Nat.lt_succ_of_lt (length_lt_of_attributeFrom h)

/-- The pattern of a regular expression may be empty. -/
theorem length_le_of_regexFrom {escaped bracket : Bool} {read cs taken rest : List Char}
    (h : regexFrom escaped bracket read cs = .done taken rest) : rest.length ≤ cs.length := by
  fun_induction regexFrom escaped bracket read cs with
  | case6 =>
    cases h
    exact Nat.le_refl _
  | case3 _ _ _ _ _ ih | case4 _ _ _ _ _ _ _ _ ih | case5 _ _ _ _ _ _ _ ih
  | case7 _ _ _ _ _ _ _ _ _ _ ih =>
    exact Nat.le_succ_of_le (ih h)
  | case1 | case2 => cases h

theorem fragmentFrom_append (read cs : List Char) :
    (fragmentFrom read cs).1 ++ (fragmentFrom read cs).2 = read.reverse ++ cs := by
  fun_induction fragmentFrom read cs with
  | case1 | case2 => rfl
  | case3 _ _ _ _ ih => simp [ih]

@[simp] theorem fragment_append (cs : List Char) : (fragment cs).1 ++ (fragment cs).2 = cs := fragmentFrom_append [] cs

/-! ## Text between elements -/

theorem elementTextFrom_append (saw margin : Bool) (read cs : List Char) :
    (elementTextFrom saw margin read cs).2.1 ++ (elementTextFrom saw margin read cs).2.2 =
      read.reverse ++ cs := by
  fun_induction elementTextFrom saw margin read cs with
  | case1 => simp
  | case2 => rfl
  | case3 _ _ _ _ _ _ _ ih | case4 _ _ _ _ _ _ _ _ ih => simp [ih]

@[simp] theorem elementText_append (cs : List Char) : (elementText cs).2.1 ++ (elementText cs).2.2 = cs :=
  elementTextFrom_append false false [] cs

/-- A text that counts is not empty: what makes it count is one of its characters. -/
theorem isEmpty_of_elementTextFrom {saw margin : Bool} {read cs : List Char}
    (h : (elementTextFrom saw margin read cs).1 = true) (hsaw : saw = true → read ≠ []) :
    (elementTextFrom saw margin read cs).2.1.isEmpty = false := by
  fun_induction elementTextFrom saw margin read cs with
  | case1 | case2 => simpa using hsaw h
  | case3 _ _ _ _ _ _ _ ih | case4 _ _ _ _ _ _ _ _ ih => exact ih h (by simp)

theorem isEmpty_of_elementText {cs : List Char} (h : (elementText cs).1 = true) :
    (elementText cs).2.1.isEmpty = false :=
  isEmpty_of_elementTextFrom h (by simp)

/-! ## Operators -/

/-- Behind an operator the text is shorter: operators that are words have letters, and no sign in the table is
empty. -/
theorem length_lt_of_operator? {cs op rest : List Char} (h : operator? cs = some (op, rest)) :
    rest.length < cs.length := by
  unfold operator? at h
  split at h
  · dsimp only at h
    split at h
    · next hword =>
      cases h
      rcases Bool.or_eq_true_iff.mp hword with hword | hword
      · exact length_lt_of_word hword
      · exact length_lt_of_word hword
    · cases h
  · obtain ⟨op, hfound, hpair⟩ := Option.map_eq_some_iff.mp h
    cases hpair
    have hprefix : op.isPrefixOf cs = true := by simpa using List.find?_some hfound
    have hstart : op <+: cs := List.isPrefixOf_iff_prefix.mp hprefix
    have hop : op.isEmpty = false := by
      have hall : ∀ op ∈ operators, op.isEmpty = false := by decide
      exact hall op (List.mem_of_find?_eq_some hfound)
    obtain ⟨rest, rfl⟩ := hstart
    rw [List.drop_left]
    exact length_lt_of_append rfl hop

/-! ## Numbers -/

theorem digitRun_pos {isDigit : Char → Bool} {c : Char} (h : isDigit c = true) (afterDigit : Bool)
    (cs : List Char) : 0 < digitRun isDigit afterDigit (c :: cs) := by
  rw [digitRun, if_pos h]
  exact Nat.succ_pos _

theorem fractionLength_pos {d : Char} (h : d.isDigit = true) (cs : List Char) :
    0 < fractionLength ('.' :: d :: cs) := by
  have hrun := digitRun_pos h false cs
  have hwhole : wholeLength ('.' :: d :: cs) = 0 := rfl
  simp only [fractionLength, hwhole, List.drop_zero]
  rw [if_neg (by simp; omega)]
  omega

/-- A text that starts like a number, with a digit or with a dot before one, starts with a number. -/
theorem numberLength_pos {c : Char} {cs : List Char}
    (h : (c.isDigit || (c == '.' && cs.head?.any Char.isDigit)) = true) : 0 < numberLength (c :: cs) := by
  rw [Bool.or_eq_true, Bool.and_eq_true, beq_iff_eq] at h
  unfold numberLength
  dsimp only
  rcases h with hdigit | ⟨rfl, hdigit⟩
  · have hrun := digitRun_pos hdigit false cs
    split <;> omega
  · cases cs with
    | nil => cases hdigit
    | cons d cs =>
      have hfraction := fractionLength_pos hdigit cs
      omega

end Phrasebook.Script.Lexeme
