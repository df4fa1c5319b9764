import Mathlib.Order.Basic
import Mathlib.Data.List.Lex
import Phrasebook.Proofs.Traversal

/-!
# Phrasebook — depth-first loops, and the order of a walk

A loop that goes through a tree keeps what it has still to come to on a stack. A *round* takes the top of the
stack, and puts its children in its place, the first of them on top. `DepthFirst` follows such a loop round by
round, without fuel: it relates what has been passed to what is on the stack. A loop may look for something,
and go on only from what it does not look for.

The invariant is that the stack, read from its top, is what remains of the preorder: what has been passed,
followed by the preorders of what is on the stack, is the preorder of the root (`DepthFirst.remaining`).

A walk over a kept tree is the loop that looks for nothing. Nodes that are equal may stand at several places of
a tree, so that it takes places to say that a walk comes to every node once. The *address* of a node tells
which child to take at each level, from the root down to the node. A walk comes to the addresses of the tree
in lexicographic order: an address comes before those below it, and what is below one child before what is
below the next.

Main results:

* `DepthFirst.remaining`, `DepthFirst.advance` — the invariant, and how far a loop gets;
* `Node.mem_addresses_iff`, `Node.pairwise_addresses`, `Node.forall₂_addresses` — the addresses of a tree, their
  order, and the nodes that stand there;
* `Node.walk_in_order` — the order of a walk.
-/

namespace Phrasebook

/-! ## Loops with a stack -/

/-- What has been passed, and what is on the stack, after some rounds of a loop from a root. A round goes on only
from what satisfies `passes`. -/
inductive DepthFirst {α : Type} (children : α → List α) (passes : α → Prop) (root : α) :
    List α → List α → Prop
  | start : DepthFirst children passes root [] [root]
  | round {passed stack : List α} {a : α} (h : DepthFirst children passes root passed (a :: stack))
      (ha : passes a) : DepthFirst children passes root (passed ++ [a]) (children a ++ stack)

namespace DepthFirst

variable {α : Type} {children : α → List α} {passes : α → Prop} {root : α} {passed stack : List α}

/-- Only what lets the loop go on is passed. -/
theorem forall_passed (h : DepthFirst children passes root passed stack) : ∀ a ∈ passed, passes a := by
  induction h with
  | start => exact fun a ha => nomatch ha
  | round _ ha ih => exact List.forall_mem_append.mpr ⟨ih, List.forall_mem_singleton.mpr ha⟩

variable {preorder : α → List α} (hpre : ∀ a, preorder a = a :: (children a).flatMap preorder)
include hpre

/-- **Invariant.** The stack, read from its top, is what remains of the preorder. -/
theorem remaining (h : DepthFirst children passes root passed stack) :
    passed ++ stack.flatMap preorder = preorder root := by
  induction h with
  | start => rw [List.nil_append, List.flatMap_singleton]
  | @round passed stack a _ _ ih =>
    rw [List.flatMap_append, List.append_assoc, List.singleton_append, ← List.cons_append, ← hpre,
      ← List.flatMap_cons, ih]

/-- What remains starts with the top of the stack. -/
theorem exists_of_flatMap_eq_cons {a : α} {later : List α} (h : stack.flatMap preorder = a :: later) :
    ∃ rest, stack = a :: rest ∧ (children a ++ rest).flatMap preorder = later := by
  cases stack with
  | nil => cases h
  | cons b rest =>
    rw [List.flatMap_cons, hpre, List.cons_append, List.cons.injEq] at h
    obtain ⟨rfl, hlater⟩ := h
    exact ⟨rest, rfl, by rw [List.flatMap_append, hlater]⟩

theorem eq_nil_of_flatMap_eq_nil (h : stack.flatMap preorder = []) : stack = [] := by
  cases stack with
  | nil => rfl
  | cons b rest =>
    rw [List.flatMap_cons, hpre] at h
    cases h

/-- **Progress.** The loop passes all that remains, up to the first thing that it does not go on from. -/
theorem advance (h : DepthFirst children passes root passed stack) {before later : List α}
    (hbefore : ∀ a ∈ before, passes a) (hsplit : stack.flatMap preorder = before ++ later) :
    ∃ left, DepthFirst children passes root (passed ++ before) left ∧ left.flatMap preorder = later := by
  -- on what is still to be passed: a round takes its first item off the top of the stack
  induction before generalizing passed stack with
  | nil => exact ⟨stack, by rwa [List.append_nil], hsplit⟩
  | cons a before ih =>
    obtain ⟨ha, hrest⟩ := List.forall_mem_cons.mp hbefore
    obtain ⟨rest, rfl, hlater⟩ := exists_of_flatMap_eq_cons hpre hsplit
    obtain ⟨left, hleft, hremains⟩ := ih (h.round ha) hrest hlater
    rw [List.append_assoc, List.singleton_append] at hleft
    exact ⟨left, hleft, hremains⟩

end DepthFirst

namespace Script.Node

/-! ## Walks -/

/-- What a walk has passed, and its stack, after some rounds. -/
def Walking (root : Node) (passed stack : List Node) : Prop :=
  DepthFirst children (fun _ => True) root passed stack

theorem walk_eq (root : Node) : root.walk = root :: root.children.flatMap walk := by
  rw [funext walk_eq_preorder, preorder_eq, preorderAll_eq_flatMap]

/-- A walk comes to its end in one way. -/
theorem walking_nil_iff {root : Node} {nodes : List Node} : Walking root nodes [] ↔ nodes = root.walk := by
  constructor
  · intro h
    have hall := h.remaining walk_eq
    rw [List.flatMap_nil, List.append_nil] at hall
    exact hall
  · rintro rfl
    have hstart : [root].flatMap walk = root.walk ++ [] := by
      rw [List.flatMap_singleton, List.append_nil]
    obtain ⟨left, hleft, hnone⟩ := DepthFirst.start.advance walk_eq (fun _ _ => trivial) hstart
    rw [DepthFirst.eq_nil_of_flatMap_eq_nil walk_eq hnone] at hleft
    exact hleft

/-! ## Addresses -/

/-- The node at an address: which child to take, level by level. -/
def at? : Node → List Nat → Option Node
  | n, [] => some n
  | n, i :: address => n.children[i]?.bind (·.at? address)

mutual

/-- The addresses of the nodes of a tree, that of a node before those below it. -/
def addresses : Node → List (List Nat)
  | .identifier _ _ => [[]]
  | .member _ object _ => [] :: object.addresses.map (0 :: ·)
  | .literal _ _ => [[]]
  | .call _ callee arguments _ => [] :: (callee.addresses.map (0 :: ·) ++ addressesFrom 1 arguments)
  | .other _ _ parts => [] :: addressesFrom 0 parts

/-- The addresses in trees that stand side by side, the first of them in the given place. -/
def addressesFrom : Nat → List Node → List (List Nat)
  | _, [] => []
  | place, n :: ns => n.addresses.map (place :: ·) ++ addressesFrom (place + 1) ns

end

theorem at?_append (root : Node) (a b : List Nat) : root.at? (a ++ b) = (root.at? a).bind (·.at? b) := by
  induction a generalizing root with
  | nil => rfl
  | cons i a ih =>
    rw [List.cons_append, at?, at?, Option.bind_assoc]
    exact congrArg (root.children[i]?.bind ·) (funext fun n => ih n)

theorem addresses_eq (n : Node) : n.addresses = [] :: addressesFrom 0 n.children := by
  cases n <;> simp [addresses, children, addressesFrom]

/-- An address below a row of nodes starts with the place of one of them, and goes on with an address in it. -/
theorem mem_addressesFrom_iff {place : Nat} {ns : List Node} {address : List Nat} :
    address ∈ addressesFrom place ns ↔
      ∃ i n rest, address = (place + i) :: rest ∧ ns[i]? = some n ∧ rest ∈ n.addresses := by
  induction ns generalizing place with
  | nil => simp [addressesFrom]
  | cons n ns ih =>
    rw [addressesFrom, List.mem_append, List.mem_map, ih]
    constructor
    · rintro (⟨rest, hrest, rfl⟩ | ⟨i, m, rest, rfl, hm, hrest⟩)
      · exact ⟨0, n, rest, rfl, rfl, hrest⟩
      · exact ⟨i + 1, m, rest, by rw [Nat.add_assoc, Nat.add_comm 1], hm, hrest⟩
    · rintro ⟨i, m, rest, rfl, hm, hrest⟩
      cases i with
      | zero =>
        cases hm
        exact .inl ⟨rest, hrest, rfl⟩
      | succ i => exact .inr ⟨i, m, rest, by rw [Nat.add_assoc, Nat.add_comm 1], hm, hrest⟩

/-- **All addresses.** The addresses of a tree are those at which a node stands. -/
theorem mem_addresses_iff {root : Node} {address : List Nat} :
    address ∈ root.addresses ↔ (root.at? address).isSome = true := by
  induction address generalizing root with
  | nil => simp [addresses_eq, at?]
  | cons i address ih =>
    rw [addresses_eq, List.mem_cons, mem_addressesFrom_iff, at?, Option.isSome_bind, Option.any_eq_true]
    constructor
    · rintro (hnil | ⟨j, n, rest, haddress, hn, hrest⟩)
      · cases hnil
      · rw [Nat.zero_add, List.cons.injEq] at haddress
        obtain ⟨rfl, rfl⟩ := haddress
        exact ⟨n, hn, ih.mp hrest⟩
    · rintro ⟨n, hn, hrest⟩
      exact .inr ⟨i, n, address, by rw [Nat.zero_add], hn, ih.mpr hrest⟩

/-- Induction over a tree: what holds of a node if it holds of its children, holds of every node. -/
theorem children_induction {motive : Node → Prop} (step : ∀ n, (∀ c ∈ n.children, motive c) → motive n)
    (root : Node) : motive root := by
  induction hsize : root.size using Nat.strongRecOn generalizing root with
  | ind size ih =>
    refine step root fun c hc => ih c.size ?_ c rfl
    have := size_le_sizeAll hc
    rw [size_eq] at hsize
    omega

/-- **In order.** The addresses of a tree stand in lexicographic order. -/
theorem pairwise_addresses (root : Node) : root.addresses.Pairwise (· < ·) := by
  -- trees side by side: all in one of them comes before all in the later ones
  have hforest : ∀ (ns : List Node) (place : Nat), (∀ n ∈ ns, n.addresses.Pairwise (· < ·)) →
      (addressesFrom place ns).Pairwise (· < ·) := by
    intro ns
    induction ns with
    | nil => exact fun _ _ => .nil
    | cons n ns ih =>
      intro place hns
      obtain ⟨hn, hrest⟩ := List.forall_mem_cons.mp hns
      rw [addressesFrom]
      refine List.pairwise_append.mpr ⟨List.pairwise_map.mpr (hn.imp ?_), ih (place + 1) hrest, ?_⟩
      · exact fun hlt => List.cons_lt_cons_iff.mpr (.inr ⟨rfl, hlt⟩)
      · intro a ha b hb
        obtain ⟨first, -, rfl⟩ := List.mem_map.mp ha
        obtain ⟨i, m, second, rfl, -, -⟩ := mem_addressesFrom_iff.mp hb
        exact List.cons_lt_cons_iff.mpr (.inl (by omega))
  induction root using children_induction with
  | step n ih =>
    rw [addresses_eq]
    refine List.pairwise_cons.mpr ⟨?_, hforest n.children 0 ih⟩
    intro address haddress
    obtain ⟨i, m, rest, rfl, -, -⟩ := mem_addressesFrom_iff.mp haddress
    exact List.nil_lt_cons _ _

/-- **What stands there.** At the addresses of a tree stand its nodes, in preorder. -/
theorem forall₂_addresses (root : Node) :
    List.Forall₂ (fun address n => root.at? address = some n) root.addresses root.preorder := by
  -- children that stand in their places below a node
  have hforest : ∀ (parent : Node) (ns before : List Node), parent.children = before ++ ns →
      (∀ n ∈ ns, List.Forall₂ (fun address m => n.at? address = some m) n.addresses n.preorder) →
      List.Forall₂ (fun address m => parent.at? address = some m) (addressesFrom before.length ns)
        (preorderAll ns) := by
    intro parent ns
    -- the trees that were dealt with stand before the others, so that their number is the place of the next
    induction ns with
    | nil => exact fun _ _ _ => .nil
    | cons n ns ih =>
      intro before hchildren hns
      obtain ⟨hn, hrest⟩ := List.forall_mem_cons.mp hns
      have hplace : parent.children[before.length]? = some n := by
        rw [hchildren, List.getElem?_append_right (Nat.le_refl _), Nat.sub_self, List.getElem?_cons_zero]
      have hlater := ih (before ++ [n]) (by rw [hchildren, List.append_assoc, List.singleton_append]) hrest
      rw [List.length_append, List.length_singleton] at hlater
      rw [addressesFrom, preorderAll]
      refine List.rel_append (List.forall₂_map_left_iff.mpr (hn.imp ?_)) hlater
      intro address m hm
      rw [at?, hplace, Option.bind_some, hm]
  induction root using children_induction with
  | step n ih =>
    rw [addresses_eq, preorder_eq]
    exact .cons rfl (hforest n n.children [] rfl ih)

/-- Of two addresses of a tree, the lexicographically smaller one comes first. -/
theorem sublist_addresses_of_lt {root : Node} {a b : List Nat} (ha : a ∈ root.addresses)
    (hb : b ∈ root.addresses) (h : a < b) : [a, b].Sublist root.addresses := by
  obtain ⟨before, after, hsplit⟩ := List.append_of_mem ha
  have hpairwise := root.pairwise_addresses
  rw [hsplit] at hb hpairwise ⊢
  obtain ⟨-, -, hbefore⟩ := List.pairwise_append.mp hpairwise
  refine (List.Sublist.cons_cons a (List.singleton_sublist.mpr ?_)).trans (List.sublist_append_right before _)
  -- what stands before `a` is smaller
  rcases List.mem_append.mp hb with hb | hb
  · exact absurd (hbefore b hb a List.mem_cons_self) (lt_asymm h)
  · rcases List.mem_cons.mp hb with rfl | hb
    · exact absurd h (lt_irrefl _)
    · exact hb

/-- What is below one child comes before what is below a later one. -/
theorem sublist_addresses_of_children {root n : Node} {address : List Nat} (hn : root.at? address = some n)
    {i j : Nat} (hij : i < j) {c d : Node} (hc : n.children[i]? = some c) (hd : n.children[j]? = some d)
    {belowC belowD : List Nat} (hbelowC : (c.at? belowC).isSome = true) (hbelowD : (d.at? belowD).isSome = true) :
    [address ++ i :: belowC, address ++ j :: belowD].Sublist root.addresses := by
  have hmem : ∀ {k : Nat} {child : Node} {below : List Nat}, n.children[k]? = some child →
      (child.at? below).isSome = true → address ++ k :: below ∈ root.addresses := by
    intro k child below hchild hbelow
    rw [mem_addresses_iff, at?_append, hn, Option.bind_some, at?, hchild, Option.bind_some]
    exact hbelow
  refine sublist_addresses_of_lt (hmem hc hbelowC) (hmem hd hbelowD) ?_
  exact List.Lex.append_left _ (List.cons_lt_cons_iff.mpr (.inl hij)) address

/-- A node comes before those below it. -/
theorem sublist_addresses_of_below {root : Node} {address below : List Nat} (hne : below ≠ [])
    (h : (root.at? (address ++ below)).isSome = true) : [address, address ++ below].Sublist root.addresses := by
  have habove : (root.at? address).isSome = true := by
    rw [at?_append] at h
    exact Option.isSome_of_isSome_bind h
  have hlt : address ++ [] < address ++ below := by
    obtain ⟨i, rest, rfl⟩ := List.exists_cons_of_ne_nil hne
    exact List.Lex.append_left _ (List.nil_lt_cons i rest) address
  rw [List.append_nil] at hlt
  exact sublist_addresses_of_lt (mem_addresses_iff.mpr habove) (mem_addresses_iff.mpr h) hlt

/-- **The order of a walk.** However many rounds a walk has made, what it has passed and the preorders of what is
on its stack make up the whole walk; it comes to its end, and with as much fuel as rounds it has listed what it
has passed. The walk over a tree is its root, followed by the walks over its children. It comes to every address
of the tree at which a node stands, and to each once: to a node before those below it, and to all below the
callee of a call before it comes to any below an argument. -/
theorem walk_in_order (root : Node) :
    (∀ passed stack, Walking root passed stack → passed ++ stack.flatMap walk = root.walk) ∧
    (∀ nodes, Walking root nodes [] ↔ nodes = root.walk) ∧
    (∀ rounds, walkFrom rounds [root] = root.walk.take rounds) ∧
    root.walk = root :: root.children.flatMap walk ∧
    List.Forall₂ (fun address n => root.at? address = some n) root.addresses root.walk ∧
    root.addresses.Nodup ∧
    (∀ address, address ∈ root.addresses ↔ (root.at? address).isSome = true) ∧
    (∀ address i, (root.at? (address ++ [i])).isSome = true →
      [address, address ++ [i]].Sublist root.addresses) ∧
    ∀ address line callee arguments comments,
      root.at? address = some (.call line callee arguments comments) →
      ∀ inCallee, (callee.at? inCallee).isSome = true →
      ∀ i argument, arguments[i]? = some argument → ∀ inArgument, (argument.at? inArgument).isSome = true →
        [address ++ 0 :: inCallee, address ++ (i + 1) :: inArgument].Sublist root.addresses := by
  -- what holds of the stack in every round comes first, then the addresses
  refine ⟨fun _ _ h => h.remaining walk_eq, fun _ => walking_nil_iff, ?_, walk_eq root, ?_, ?_,
    fun _ => mem_addresses_iff, ?_, ?_⟩
  · intro rounds
    rw [walkFrom_eq_take, walk_eq_preorder, preorderAll, preorderAll, List.append_nil]
  · rw [walk_eq_preorder]
    exact root.forall₂_addresses
  · exact root.pairwise_addresses.imp fun hlt => hlt.ne
  · intro address i h
    -- a node stands before those below it
    exact sublist_addresses_of_below (List.cons_ne_nil i []) h
  · intro address line callee arguments comments hcall inCallee hinCallee i argument hargument inArgument
      hinArgument
    -- the callee is the first child of a call, and the arguments follow
    have hcallee : (Node.call line callee arguments comments).children[0]? = some callee := rfl
    have hlater : (Node.call line callee arguments comments).children[i + 1]? = some argument := hargument
    exact sublist_addresses_of_children hcall (Nat.succ_pos i) hcallee hlater hinCallee hinArgument

/-- The call `f(a)(b)`: its callee is a call of its own. -/
def curriedCall : Node :=
  .call 1 (.call 1 (.identifier 1 (Text.ofString "f")) [.identifier 1 (Text.ofString "a")] [])
    [.identifier 1 (Text.ofString "b")] []

/-- The argument of the callee comes before the argument of the call. -/
theorem walk_in_order_curriedCall :
    curriedCall.addresses = [[], [0], [0, 0], [0, 1], [1]] ∧
    Walking curriedCall curriedCall.walk [] ∧
    [[0, 1], [1]].Sublist curriedCall.addresses := by
  obtain ⟨-, hends, -, -, -, -, -, -, hcallee⟩ := walk_in_order curriedCall
  exact ⟨rfl, (hends _).mpr rfl, hcallee [] _ _ _ _ rfl [1] rfl 0 _ rfl [] rfl⟩

end Script.Node

end Phrasebook
