import Mathlib.Order.Bounds.Basic
import Phrasebook.Proofs.DepthFirst

/-!
# Phrasebook — the line of the first error

A tree that shows an error is reported by the line of the first one. The search for it is a loop with a stack that
goes on from all trees but those that mark an error, and stops at the first one that does. What it has passed by
then is the part of the preorder before this tree, so that the search comes to the first error of the preorder,
however deep it stands.

Errors may stand anywhere, and nothing in a tree says that the first one in preorder has the smallest line. It has
where lines follow the preorder: a text is read from its start to its end, so that no node starts on an earlier
line than a node before it.

Main results:

* `Tree.finds_iff` — the line that the search comes to;
* `Tree.hasError_iff` — a tree shows an error if it holds a node that marks one;
* `Tree.firstErrorLine_isLeast` — the reported line is the smallest one of an error.
-/

namespace Phrasebook.Script.Tree

/-! ## The search -/

/-- What the search for an error has passed, and its stack, after some rounds. -/
def Searching (root : Tree) (passed stack : List Tree) : Prop :=
  DepthFirst children (fun t => t.isError = false) root passed stack

/-- The lines that the search can end with: that of an error on top of the stack, or that of the root when the
stack is empty. -/
inductive Finds (root : Tree) : Nat → Prop
  | error {passed stack : List Tree} {t : Tree} (h : Searching root passed (t :: stack))
      (herror : t.isError = true) : Finds root t.line
  | nothing {passed : List Tree} (h : Searching root passed []) : Finds root root.line

theorem preorder_eq_cons (t : Tree) : t.preorder = t :: t.children.flatMap preorder := by
  rw [preorder_eq, preorderAll_eq_flatMap]

theorem sizeAll_append (a b : List Tree) : sizeAll (a ++ b) = sizeAll a + sizeAll b := by
  induction a with
  | nil => rw [List.nil_append, sizeAll, Nat.zero_add]
  | cons t a ih => rw [List.cons_append, sizeAll, ih, sizeAll, Nat.add_assoc]

/-- With enough fuel, what is found is the first error in what remains of the preorder. -/
theorem firstErrorFrom_eq {fuel : Nat} {stack : List Tree} (h : sizeAll stack ≤ fuel) :
    firstErrorFrom fuel stack = ((stack.flatMap preorder).find? isError).map line := by
  induction fuel generalizing stack with
  | zero =>
    cases stack with
    | nil => rfl
    | cons t stack =>
      -- without fuel nothing can be on the stack
      have := t.size_pos
      rw [sizeAll] at h
      omega
  | succ fuel ih =>
    cases stack with
    | nil => rfl
    | cons t stack =>
      -- the children take the place of the node, so that one unit of fuel is enough for it
      have hfuel : sizeAll (t.children ++ stack) ≤ fuel := by
        rw [sizeAll, size_eq] at h
        rw [sizeAll_append]
        omega
      rw [firstErrorFrom, List.flatMap_cons, preorder_eq_cons, List.cons_append, ← List.flatMap_append]
      -- the node is the first of the preorder that remains
      cases herror : t.isError with
      | true => rw [if_pos rfl, List.find?_cons_of_pos herror, Option.map_some]
      | false =>
        rw [if_neg Bool.false_ne_true, List.find?_cons_of_neg (ne_true_of_eq_false herror), ih hfuel]

theorem firstError?_eq (root : Tree) : root.firstError? = (root.preorder.find? isError).map line := by
  have hfuel : sizeAll [root] ≤ root.size := by
    rw [sizeAll, sizeAll, Nat.add_zero]
  rw [firstError?, firstErrorFrom_eq hfuel, List.flatMap_singleton]

/-- What was passed marks no error, so that the first error stands in what remains. -/
theorem find?_of_searching {root : Tree} {passed stack : List Tree} (h : Searching root passed stack) :
    root.preorder.find? isError = (stack.flatMap preorder).find? isError := by
  have hpassed : passed.find? isError = none := by
    exact List.find?_eq_none.mpr fun t ht => ne_true_of_eq_false (h.forall_passed t ht)
  rw [← h.remaining preorder_eq_cons, List.find?_append, hpassed, Option.none_or]

/-- The search passes all that stands before the first error. -/
theorem exists_searching {root : Tree} {before later : List Tree} (hbefore : ∀ t ∈ before, t.isError = false)
    (hsplit : root.preorder = before ++ later) :
    ∃ stack, Searching root before stack ∧ stack.flatMap preorder = later := by
  have hstart : [root].flatMap preorder = before ++ later := by rw [List.flatMap_singleton, hsplit]
  exact DepthFirst.start.advance preorder_eq_cons hbefore hstart

/-- **What the search comes to.** It ends, and in one way only. -/
theorem finds_iff {root : Tree} {line : Nat} : Finds root line ↔ line = root.firstErrorLine := by
  rw [firstErrorLine, firstError?_eq]
  constructor
  · rintro (⟨h, herror⟩ | h)
    · rw [find?_of_searching h, List.flatMap_cons, preorder_eq_cons, List.cons_append,
        List.find?_cons_of_pos herror, Option.map_some, Option.getD_some]
    · rw [find?_of_searching h, List.flatMap_nil, List.find?_nil, Option.map_none, Option.getD_none]
  · rintro rfl
    -- the first error of the preorder says how far the search gets
    cases hfind : root.preorder.find? isError with
    | none =>
      have hall : ∀ t ∈ root.preorder, t.isError = false := fun t ht => by
        simpa using List.find?_eq_none.mp hfind t ht
      obtain ⟨stack, hstack, hnone⟩ := exists_searching hall (List.append_nil _).symm
      rw [DepthFirst.eq_nil_of_flatMap_eq_nil preorder_eq_cons hnone] at hstack
      exact .nothing hstack
    | some t =>
      obtain ⟨herror, before, after, hsplit, hbefore⟩ := List.find?_eq_some_iff_append.mp hfind
      have hall : ∀ s ∈ before, s.isError = false := fun s hs => by simpa using hbefore s hs
      obtain ⟨stack, hstack, hremains⟩ := exists_searching hall hsplit
      obtain ⟨rest, rfl, -⟩ := DepthFirst.exists_of_flatMap_eq_cons preorder_eq_cons hremains
      exact .error hstack herror

/-- A tree shows an error if it holds a node that marks one. -/
theorem hasError_iff {root : Tree} : root.hasError = true ↔ ∃ t ∈ root.preorder, t.isError = true := by
  rw [hasError, firstError?_eq, Option.isSome_map, List.find?_isSome]

/-! ## The smallest line -/

/-- Where lines follow the order of a list, the first of its trees that satisfy a test has the smallest line. -/
theorem line_le_of_find?_eq_some {ts : List Tree} {p : Tree → Bool} {t : Tree}
    (hlines : ts.IsChain fun a b => a.line ≤ b.line) (h : ts.find? p = some t) :
    ∀ s ∈ ts, p s = true → t.line ≤ s.line := by
  intro s hs hp
  obtain ⟨-, before, after, rfl, hbefore⟩ := List.find?_eq_some_iff_append.mp h
  have htrans : IsTrans Tree fun a b => a.line ≤ b.line := ⟨fun _ _ _ => Nat.le_trans⟩
  have hpairwise := List.isChain_iff_pairwise.mp hlines
  rcases List.mem_append.mp hs with hs | hs
  · have hnot := hbefore s hs
    rw [hp] at hnot
    cases hnot
  · rcases List.mem_cons.mp hs with rfl | hs
    · exact Nat.le_refl _
    · exact (List.pairwise_cons.mp (List.pairwise_append.mp hpairwise).2.1).1 s hs

/-- **The line of the first error.** The search ends, and the reported line is the one that it comes to. A tree
without errors is reported by its own line. One that shows an error, and in which no tree starts on an earlier
line than one before it in preorder, is reported by the smallest line on which an error starts. -/
theorem firstErrorLine_isLeast (root : Tree) :
    (∀ line, Finds root line ↔ line = root.firstErrorLine) ∧
    (root.hasError = true ↔ ∃ t ∈ root.preorder, t.isError = true) ∧
    (root.hasError = false → root.firstErrorLine = root.line) ∧
    ((root.preorder.IsChain fun a b => a.line ≤ b.line) → root.hasError = true →
      IsLeast {line | ∃ t ∈ root.preorder, t.isError = true ∧ t.line = line} root.firstErrorLine) := by
  refine ⟨fun _ => finds_iff, hasError_iff, ?_, ?_⟩
  · intro hnone
    rw [hasError, Option.isSome_eq_false_iff, Option.isNone_iff_eq_none] at hnone
    rw [firstErrorLine, hnone, Option.getD_none]
  · intro hlines herror
    rw [hasError, firstError?_eq, Option.isSome_map, Option.isSome_iff_exists] at herror
    obtain ⟨t, ht⟩ := herror
    rw [firstErrorLine, firstError?_eq, ht, Option.map_some, Option.getD_some]
    refine ⟨⟨t, List.mem_of_find?_eq_some ht, List.find?_some ht, rfl⟩, ?_⟩
    rintro _ ⟨s, hs, hserror, rfl⟩
    exact line_le_of_find?_eq_some hlines ht s hs hserror

/-- A tree with a missing token on the third line, deep below the first of two statements, and an error behind
them on the fourth. -/
def missingToken : Tree :=
  .node { kind := .program, line := 1 }
    [.node { kind := .ifStatement, line := 1 }
      [.node { kind := .token, line := 1 } [],
       .node { kind := .statementBlock, line := 2 }
        [.node { kind := .expressionStatement, line := 2 }
          [.node { kind := .token, line := 3, missing := true } []]]],
     .node { kind := .emptyStatement, line := 3 } [],
     .node { kind := .error, line := 4 } []]

theorem firstErrorLine_isLeast_missingToken :
    (missingToken.preorder.IsChain fun a b => a.line ≤ b.line) ∧ missingToken.hasError = true ∧
    Finds missingToken 3 ∧
    IsLeast {line | ∃ t ∈ missingToken.preorder, t.isError = true ∧ t.line = line} 3 := by
  obtain ⟨hfinds, -, -, hleast⟩ := firstErrorLine_isLeast missingToken
  have hlines : missingToken.preorder.IsChain fun a b => a.line ≤ b.line := by decide
  have herror : missingToken.hasError = true := by decide
  exact ⟨hlines, herror, (hfinds 3).mpr (by decide), hleast hlines herror⟩

end Phrasebook.Script.Tree
