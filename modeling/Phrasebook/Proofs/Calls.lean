import Phrasebook.Marker
import Phrasebook.Proofs.Traversal
import Phrasebook.Script.Parse

/-!
# Phrasebook — no call is lost

Lowering drops a good part of the concrete tree: tokens and comments, what stands between the object of
a member and its name, the inside of literals, parentheses. No call goes with it, as long as the tree
has its calls where the grammar puts them (`Tree.showsCalls`). The calls met on a walk of the kept tree
are then those of the concrete tree, in the same order, and each has its line, its arguments and its
comments.

A plan either makes a call, or it is *transparent* for calls: the calls below the node are those below
the nodes that it asks for, and building adds none.

Main results:

* `Lower.forall₂_calls` — the calls of the two trees correspond;
* `Lower.unescape_of_lower_error` — lowering fails only at a literal without value;
* `Marker.forall₂_tells` — every marked call gives one message, in the order of the calls;
* `Marker.calls_of_walk_lower` — all of it together.
-/

namespace Phrasebook.Script

/-! ## Where calls stand -/

namespace Tree

/-- A call with a list of arguments. A function before a template has none. -/
def isCall (t : Tree) : Bool :=
  t.kind == .callExpression && (t.child? .arguments).any (·.kind == .arguments)

/-- The calls at and below a node, parents before their children. -/
def calls (t : Tree) : List Tree := t.preorder.filter isCall

/-- There is nothing like a call at or below a node. -/
def isCallFree (t : Tree) : Bool := t.preorder.all (·.kind != .callExpression)

end Tree

/-- Kinds of nodes that the grammar gives no calls. -/
def Kind.isAtom : Kind → Bool
  | .token | .comment | .optionalChain | .identifier | .thisKeyword | .superKeyword
  | .stringLiteral | .numberLiteral | .trueLiteral | .falseLiteral | .nullLiteral => true
  | _ => false

/-- Kinds of nodes that stand between a function and its arguments. -/
def Kind.isFiller : Kind → Bool
  | .token | .optionalChain | .comment => true
  | _ => false

/-- Only tokens and comments are left out of the named children. -/
theorem Kind.isAtom_of_dropped {kind : Kind} :
    (kind.isNamed && !kind.isComment) = false → kind.isAtom = true := by
  cases kind <;> decide

theorem Kind.isAtom_of_isFiller {kind : Kind} : kind.isFiller = true → kind.isAtom = true := by
  cases kind <;> decide

namespace Tree

/-- The function comes first, the arguments last, and only fillers stand between them. -/
def isCallShaped (t : Tree) : Bool :=
  match t.children with
  | [] => false
  | function :: rest =>
    function.label.role == some .function &&
      rest.dropLast.all (fun c => c.kind.isFiller && c.label.role != some .arguments) &&
      rest.getLast?.any (·.label.role == some .arguments)

/-- Whether a node hides no call from its plan. -/
def hidesNoCall (t : Tree) : Bool :=
  match t.kind with
  | .memberExpression => (t.children.eraseP (·.label.role == some .object)).all isCallFree
  | .callExpression => t.isCallShaped
  | .templateString => t.children.any (·.kind == .templateSubstitution) || t.isCallFree
  | kind => !kind.isAtom || t.isCallFree

/-- Whether a tree has its calls where the grammar puts them. -/
def showsCalls (t : Tree) : Bool := t.preorder.all hidesNoCall

/-! ## Calls of concrete trees -/

theorem calls_eq (t : Tree) :
    t.calls = (if t.isCall then [t] else []) ++ t.children.flatMap calls := by
  rw [calls, preorder_eq, preorderAll_eq_flatMap, List.filter_cons, List.filter_flatMap]
  split <;> rfl

theorem calls_eq_nil {t : Tree} (h : t.isCallFree = true) : t.calls = [] := by
  rw [calls, List.filter_eq_nil_iff]
  intro s hs hcall
  have hkind := List.all_eq_true.mp h s hs
  rw [isCall, Bool.and_eq_true, beq_iff_eq] at hcall
  rw [bne_iff_ne] at hkind
  exact hkind hcall.1

theorem showsCalls_of_subset {t c : Tree} (h : t.showsCalls = true)
    (hsub : ∀ s ∈ c.preorder, s ∈ t.preorder) : c.showsCalls = true := by
  rw [showsCalls, List.all_eq_true] at h ⊢
  exact fun s hs => h s (hsub s hs)

theorem showsCalls_of_mem_children {t c : Tree} (h : t.showsCalls = true) (hc : c ∈ t.children) :
    c.showsCalls = true :=
  showsCalls_of_subset h fun _ hs => mem_preorder_of_mem_children hc hs

theorem hidesNoCall_of_showsCalls {t : Tree} (h : t.showsCalls = true) : t.hidesNoCall = true :=
  List.all_eq_true.mp h t t.self_mem_preorder

theorem isCallFree_of_isAtom {t : Tree} (h : t.showsCalls = true) (hatom : t.kind.isAtom = true) :
    t.isCallFree = true := by
  have hlocal := hidesNoCall_of_showsCalls h
  unfold hidesNoCall at hlocal
  split at hlocal
  · next hkind => rw [hkind] at hatom; cases hatom
  · next hkind => rw [hkind] at hatom; cases hatom
  · next hkind => rw [hkind] at hatom; cases hatom
  · rw [hatom] at hlocal
    exact hlocal

/-- Trees without calls may be left out when the calls of a list are collected. -/
theorem flatMap_calls_filter {p : Tree → Bool} {ts : List Tree}
    (h : ∀ c ∈ ts, p c = false → c.calls = []) : (ts.filter p).flatMap calls = ts.flatMap calls := by
  induction ts with
  | nil => rfl
  | cons c ts ih =>
    obtain ⟨hc, hts⟩ := List.forall_mem_cons.mp h
    rw [List.filter_cons]
    split
    · rw [List.flatMap_cons, List.flatMap_cons, ih hts]
    · next hp =>
      rw [List.flatMap_cons, hc (Bool.eq_false_iff.mpr hp), List.nil_append, ih hts]

/-- Tokens and comments are left out of the named children, and no call with them. -/
theorem flatMap_calls_named {t : Tree} (h : t.showsCalls = true) :
    t.named.flatMap calls = t.children.flatMap calls := by
  apply flatMap_calls_filter
  intro c hc hdropped
  apply calls_eq_nil
  apply isCallFree_of_isAtom (showsCalls_of_mem_children h hc)
  exact Kind.isAtom_of_dropped hdropped

/-- Where all children but the first of a kind are free of calls, that one has them all. -/
theorem flatMap_calls_eraseP {p : Tree → Bool} {ts : List Tree} {c : Tree}
    (hc : ts.find? p = some c) (h : (ts.eraseP p).all isCallFree = true) :
    ts.flatMap calls = c.calls := by
  induction ts with
  | nil => cases hc
  | cons t ts ih =>
    rw [List.flatMap_cons]
    rw [List.find?_cons] at hc
    cases hp : p t with
    | true =>
      rw [hp] at hc
      -- the first of the kind: the children behind it have no calls
      rw [List.eraseP_cons_of_pos hp, List.all_eq_true] at h
      have hrest : ts.flatMap calls = [] :=
        List.flatMap_eq_nil_iff.mpr fun u hu => calls_eq_nil (h u hu)
      rw [hrest, List.append_nil, Option.some.inj hc]
    | false =>
      rw [hp] at hc
      -- another child is not erased, and so has no calls itself
      rw [List.eraseP_cons_of_neg (ne_true_of_eq_false hp), List.all_cons, Bool.and_eq_true] at h
      rw [calls_eq_nil h.1, List.nil_append, ih hc h.2]

/-- The parts of a call, as its plan finds them. -/
theorem parts_of_isCallShaped {t : Tree} (h : t.isCallShaped = true) :
    ∃ function between arguments, t.children = function :: (between ++ [arguments]) ∧
      t.child? .function = some function ∧ t.child? .arguments = some arguments ∧
      ∀ c ∈ between, c.kind.isFiller = true := by
  unfold isCallShaped at h
  split at h
  · cases h
  · next function rest hchildren =>
    -- the callee stands first, the arguments last, and only fillers between
    simp only [Bool.and_eq_true, beq_iff_eq, List.all_eq_true, bne_iff_ne] at h
    obtain ⟨⟨hfunction, hbetween⟩, hlast⟩ := h
    obtain ⟨arguments, hlast, hrole⟩ := (Option.any_eq_true _ _).mp hlast
    obtain ⟨between, rfl⟩ := List.getLast?_eq_some_iff.mp hlast
    rw [List.dropLast_concat] at hbetween
    refine ⟨function, between, arguments, hchildren, ?_, ?_, fun c hc => (hbetween c hc).1⟩
    · rw [child?, hchildren, List.find?_cons, hfunction]
      rfl
    -- no filler takes the place of the arguments
    · have hnone : between.find? (·.label.role == some .arguments) = none := by
        rw [List.find?_eq_none]
        intro c hc hc'
        exact (hbetween c hc).2 (beq_iff_eq.mp hc')
      rw [child?, hchildren, List.find?_cons, hfunction, List.find?_append, hnone,
        List.find?_cons, hrole]
      rfl

end Tree

/-! ## Calls of kept trees -/

namespace Node

/-- A call, with or without arguments. -/
def isCall : Node → Bool
  | .call _ _ _ _ => true
  | _ => false

/-- The calls of a kept tree, parents before their children. -/
def calls (n : Node) : List Node := n.preorder.filter isCall

theorem calls_eq (n : Node) :
    n.calls = (if n.isCall then [n] else []) ++ n.children.flatMap calls := by
  rw [calls, preorder_eq, preorderAll_eq_flatMap, List.filter_cons, List.filter_flatMap]
  split <;> rfl

end Node

namespace Lower

/-! ## Comments before the first argument -/

/-- The lines of the comments before the first named child that is none. -/
def commentsBefore (arguments : List Tree) : List Text :=
  let before := arguments.takeWhile fun c => !(c.kind.isNamed && !c.kind.isComment)
  (before.filter (·.kind.isComment)).flatMap fun c => Comment.lines (Text.ofChars c.spelling)

/-- The comments that a call takes along are those before its first named argument. -/
theorem leadingComments_eq (arguments : List Tree) :
    leadingComments arguments = commentsBefore arguments := by
  induction arguments with
  | nil => rfl
  | cons c rest ih =>
    rw [leadingComments, ih]
    simp only [commentsBefore, List.takeWhile_cons]
    by_cases hcomment : c.kind.isComment = true
    · simp [hcomment]
    · by_cases hnamed : c.kind.isNamed = true
      · simp [hcomment, hnamed]
      · simp [hcomment, hnamed]

/-! ## Plans that make calls, and plans that do not -/

/-- A kept node stands for a call: it has the line of the call, the kept function, one kept argument for
every named child of the argument list that is no comment, and the comments before the first of them. -/
inductive StandsFor : Tree → Node → Prop
  | call {t callee arguments : Tree} {function : Node} {given : List Node}
      (hcallee : t.child? .function = some callee)
      (harguments : t.child? .arguments = some arguments)
      (hfunction : lower callee = .ok function)
      (hgiven : List.Forall₂ (fun c n => lower c = .ok n) arguments.named given) :
      StandsFor t (.call t.line function given (commentsBefore arguments.children))

/-- A plan that passes on the calls below it, and adds none. -/
structure Transparent (t : Tree) (p : Plan) : Prop where
  calls : t.calls = p.pending.flatMap Tree.calls
  build : ∀ parts n, parts.length = p.pending.length → p.build parts = .ok n →
    n.calls = parts.flatMap Node.calls

theorem calls_of_not_isCall {t : Tree} (h : t.isCall = false) : t.calls = t.children.flatMap Tree.calls := by
  rw [Tree.calls_eq, h]
  rfl

theorem isCall_eq_false_of_kind {t : Tree} (h : t.kind ≠ .callExpression) : t.isCall = false := by
  rw [Tree.isCall, Bool.and_eq_false_iff]
  exact Or.inl (beq_eq_false_iff_ne.mpr h)

/-- What a plan of a call says: its function and its arguments are asked for, and nothing else. -/
structure MakesCall (t : Tree) (p : Plan) (callee arguments : Tree) : Prop where
  function : t.child? .function = some callee
  given    : t.child? .arguments = some arguments
  pending  : p.pending = callee :: arguments.named
  calls    : t.calls = t :: p.pending.flatMap Tree.calls
  build    : ∀ node nodes, p.build (node :: nodes) =
    .ok (.call t.line node nodes (commentsBefore arguments.children))

theorem transparent_keep {t : Tree} {p : Plan} (h : t.showsCalls = true) (hcall : t.isCall = false)
    (hpending : p.pending = t.named)
    (hbuild : ∀ parts, p.build parts = .ok (.other t.line t.kind parts)) : Transparent t p := by
  constructor
  · rw [hpending, Tree.flatMap_calls_named h, calls_of_not_isCall hcall]
  · intro parts n _ hn
    rw [hbuild, Except.ok.injEq] at hn
    rw [← hn, Node.calls_eq]
    rfl

/-- A plan that asks for nothing is transparent if there is no call below the node, and none is made. -/
theorem transparent_of_isCallFree {t : Tree} {p : Plan} (hfree : t.isCallFree = true)
    (hpending : p.pending = []) (hbuild : ∀ n, p.build [] = .ok n → n.calls = []) :
    Transparent t p := by
  constructor
  · rw [hpending, Tree.calls_eq_nil hfree]
    rfl
  · intro parts n hlength hn
    rw [hpending, List.length_nil, List.length_eq_zero_iff] at hlength
    rw [hlength] at hn
    rw [hlength, hbuild n hn]
    rfl

/-- A parenthesis around one node stands for that node and has its calls. -/
theorem transparent_single {t inner : Tree} {p : Plan} (h : t.showsCalls = true)
    (hkind : t.kind = .parenthesizedExpression) (hnamed : t.named = [inner])
    (hpending : p.pending = [inner]) (hbuild : ∀ node, p.build [node] = .ok node) :
    Transparent t p := by
  constructor
  · rw [hpending, ← hnamed, Tree.flatMap_calls_named h,
      calls_of_not_isCall (isCall_eq_false_of_kind (by rw [hkind]; decide))]
  · intro parts n hlength hn
    rw [hpending, List.length_singleton, List.length_eq_one_iff] at hlength
    obtain ⟨node, rfl⟩ := hlength
    rw [hbuild, Except.ok.injEq] at hn
    rw [hn, List.flatMap_singleton]

/-- A member expression has the calls of its object: the property is a name. -/
theorem transparent_member {t object : Tree} {p : Plan} {name : Text}
    (hlocal : t.hidesNoCall = true) (hkind : t.kind = .memberExpression)
    (hobject : t.child? .object = some object) (hpending : p.pending = [object])
    (hbuild : ∀ node, p.build [node] = .ok (.member t.line node name)) : Transparent t p := by
  constructor
  · rw [Tree.hidesNoCall, hkind] at hlocal
    rw [hpending, List.flatMap_singleton,
      calls_of_not_isCall (isCall_eq_false_of_kind (by rw [hkind]; decide)),
      Tree.flatMap_calls_eraseP hobject hlocal]
  · intro parts n hlength hn
    rw [hpending, List.length_singleton, List.length_eq_one_iff] at hlength
    obtain ⟨node, rfl⟩ := hlength
    rw [hbuild, Except.ok.injEq] at hn
    rw [← hn, Node.calls_eq]
    rfl

/-- The calls at and below a call: the call itself, those of its function, those of its arguments. -/
theorem calls_of_call {t callee arguments : Tree} (h : t.showsCalls = true)
    (hkind : t.kind = .callExpression) (hcallee : t.child? .function = some callee)
    (harguments : t.child? .arguments = some arguments) (hlist : arguments.kind = .arguments) :
    t.calls = t :: (callee :: arguments.named).flatMap Tree.calls := by
  have hlocal := Tree.hidesNoCall_of_showsCalls h
  rw [Tree.hidesNoCall, hkind] at hlocal
  -- the function and the argument list are the first and the last child
  obtain ⟨function, between, last, hchildren, hfunction, hlast, hfillers⟩ :=
    Tree.parts_of_isCallShaped hlocal
  rw [hcallee, Option.some.injEq] at hfunction
  rw [harguments, Option.some.injEq] at hlast
  subst hfunction hlast
  have hcall : t.isCall = true := by
    rw [Tree.isCall, hkind, harguments, Option.any_some, hlist]
    rfl
  -- fillers hold no calls, and an argument list is none itself
  have hbetween : between.flatMap Tree.calls = [] := by
    rw [List.flatMap_eq_nil_iff]
    intro c hc
    have hmem : c ∈ t.children := by
      rw [hchildren]
      exact List.mem_cons_of_mem _ (List.mem_append_left _ hc)
    exact Tree.calls_eq_nil (Tree.isCallFree_of_isAtom (Tree.showsCalls_of_mem_children h hmem)
      (Kind.isAtom_of_isFiller (hfillers c hc)))
  have hgiven : arguments.calls = arguments.named.flatMap Tree.calls := by
    have hshows := Tree.showsCalls_of_mem_children h (Tree.child?_mem harguments)
    rw [Tree.flatMap_calls_named hshows,
      calls_of_not_isCall (isCall_eq_false_of_kind (by rw [hlist]; decide))]
  rw [Tree.calls_eq, hcall, hchildren, List.flatMap_cons, List.flatMap_append, hbetween,
    List.flatMap_singleton, hgiven, List.flatMap_cons]
  rfl

/-- A call whose plan keeps its parts has no argument list, so that it does not count. -/
theorem isCall_eq_false_of_keep {t : Tree} (h : t.showsCalls = true)
    (hcall : t.kind = .callExpression → ∀ callee arguments, t.child? .function = some callee →
      t.child? .arguments = some arguments → arguments.kind ≠ .arguments) : t.isCall = false := by
  by_cases hkind : t.kind = .callExpression
  · have hlocal := Tree.hidesNoCall_of_showsCalls h
    rw [Tree.hidesNoCall, hkind] at hlocal
    obtain ⟨function, _, arguments, _, hfunction, harguments, _⟩ :=
      Tree.parts_of_isCallShaped hlocal
    have hlist := hcall hkind function arguments hfunction harguments
    rw [Tree.isCall, harguments, Bool.and_eq_false_iff]
    exact Or.inr (beq_eq_false_iff_ne.mpr hlist)
  · exact isCall_eq_false_of_kind hkind

/-- **A plan makes a call or is transparent for calls.** -/
theorem makesCall_or_transparent {t : Tree} (h : t.showsCalls = true) :
    (∃ callee arguments, MakesCall t (plan t) callee arguments) ∨ Transparent t (plan t) := by
  -- one case for each form that a plan can have
  have hlocal := Tree.hidesNoCall_of_showsCalls h
  cases form_plan t with
  | keep hpending hbuild hcall =>
    exact Or.inr (transparent_keep h (isCall_eq_false_of_keep h hcall) hpending hbuild)
  | leaf hkind hpending node hnode hbuild =>
    -- an atom has no calls below it, and its node makes none
    have hatom : t.kind.isAtom = true := by
      revert hkind
      cases t.kind <;> decide
    refine Or.inr (transparent_of_isCallFree (Tree.isCallFree_of_isAtom h hatom) hpending ?_)
    intro n hn
    rw [hbuild, Except.ok.injEq] at hn
    rw [← hn]
    rcases hnode with ⟨name, rfl⟩ | ⟨value, rfl, _⟩ <;> rfl
  | quoted hkind hpending hbuild =>
    -- a literal without substitutions has no calls below it
    have hfree : t.isCallFree = true := by
      rcases hkind with hkind | ⟨hkind, hplain⟩
      · exact Tree.isCallFree_of_isAtom h (by rw [hkind]; rfl)
      · rw [Tree.hidesNoCall, hkind] at hlocal
        simp only [Bool.or_eq_true, List.any_eq_true, beq_iff_eq] at hlocal
        rcases hlocal with ⟨c, hc, hsubstitution⟩ | hfree
        · exact absurd hsubstitution (hplain c hc)
        · exact hfree
    refine Or.inr (transparent_of_isCallFree hfree hpending ?_)
    intro n hn
    rw [hbuild] at hn
    -- whether or not the literal has a value, no call is made of it
    cases hvalue : Escape.unescape (Text.ofChars (t.spelling.drop 1).dropLast) with
    | error failure =>
      rw [hvalue] at hn
      cases hn
    | ok value =>
      rw [hvalue] at hn
      cases hn
      rfl
  | single inner hkind hnamed hpending hbuild =>
    exact Or.inr (transparent_single h hkind hnamed hpending hbuild)
  | member object property hkind hobject hproperty hpending hbuild =>
    exact Or.inr (transparent_member hlocal hkind hobject hpending hbuild)
  | call callee arguments hkind hcallee harguments hlist hpending hbuild =>
    refine Or.inl ⟨callee, arguments, hcallee, harguments, hpending, ?_, ?_⟩
    · rw [hpending]
      exact calls_of_call h hkind hcallee harguments hlist
    · intro node nodes
      rw [hbuild, leadingComments_eq]

/-! ## The two trees -/

/-- **The calls of the two trees correspond**, in their order. -/
theorem forall₂_calls {t : Tree} (h : t.showsCalls = true) {n : Node} (hn : lower t = .ok n) :
    List.Forall₂ StandsFor t.calls n.calls := by
  refine lower_induction (motive := fun t n => t.showsCalls = true →
    List.Forall₂ StandsFor t.calls n.calls) ?_ hn h
  intro t parts n hparts hbuild h
  have hlowered : List.Forall₂ (fun c m => lower c = .ok m) (plan t).pending parts :=
    hparts.imp fun _ _ hpart => hpart.1
  have hbelow : List.Forall₂ StandsFor ((plan t).pending.flatMap Tree.calls)
      (parts.flatMap Node.calls) := by
    -- the condition on the tree passes to the nodes that the plan asks for
    have hshows : ∀ c ∈ (plan t).pending, c.showsCalls = true := fun c hc =>
      Tree.showsCalls_of_subset h fun s hs => mem_preorder_of_mem_pending hc hs
    refine List.rel_flatMap ((List.forall₂_and_left _ _).mpr ⟨hshows, hparts⟩) ?_
    rintro c m ⟨hc, -, hcalls⟩
    exact hcalls hc
  rcases makesCall_or_transparent h with ⟨callee, arguments, hmakes⟩ | htransparent
  · rw [hmakes.pending] at hlowered
    cases hlowered with
    | cons hfunction hgiven =>
      rw [hmakes.build, Except.ok.injEq] at hbuild
      subst hbuild
      rw [hmakes.calls, Node.calls_eq]
      exact .cons (.call hmakes.function hmakes.given hfunction hgiven) hbelow
  · rw [htransparent.calls, htransparent.build parts n hlowered.length_eq.symm hbuild]
    exact hbelow

/-- A plan fails to build its node only at a literal without value. -/
theorem unescape_of_build_error {t : Tree} {parts : List Node} {failure : Escape.Failure}
    (hlength : (plan t).pending.length = parts.length)
    (h : (plan t).build parts = .error failure) :
    (t.kind = .stringLiteral ∨ t.kind = .templateString) ∧
      Escape.unescape (Text.ofChars (t.spelling.drop 1).dropLast) = .error failure := by
  -- of all the forms of a plan only the literal can fail
  have hbuilt := built hlength
  rw [h] at hbuilt
  generalize hresult : Except.error failure = result at hbuilt
  cases hbuilt with
  | quoted hkind =>
    refine ⟨hkind, ?_⟩
    -- the failure is that of the value
    cases hvalue : Escape.unescape (Text.ofChars (t.spelling.drop 1).dropLast) with
    | error other =>
      rw [hvalue] at hresult
      cases hresult
      rfl
    | ok value =>
      rw [hvalue] at hresult
      cases hresult
  | _ => cases hresult

/-- **Lowering fails only at a literal without value**, whose failure it reports. -/
theorem unescape_of_lower_error {t : Tree} {failure : Escape.Failure}
    (h : lower t = .error failure) :
    ∃ s ∈ t.preorder, (s.kind = .stringLiteral ∨ s.kind = .templateString) ∧
      Escape.unescape (Text.ofChars (s.spelling.drop 1).dropLast) = .error failure := by
  induction hsize : t.size using Nat.strongRecOn generalizing t with
  | ind size ih =>
    -- what a plan asks for is smaller, so the induction is on the size
    subst hsize
    rw [lower_eq] at h
    cases hparts : (plan t).pending.mapM lower with
    | error other =>
      rw [hparts] at h
      cases h
      -- a part fails: the literal stands below it
      obtain ⟨before, c, after, -, hpending, -, hfail⟩ := exists_of_mapM_error hparts
      have hc : c ∈ (plan t).pending := by
        rw [hpending]
        simp
      obtain ⟨s, hs, hliteral⟩ := ih c.size (size_lt_of_mem_pending hc) hfail rfl
      exact ⟨s, mem_preorder_of_mem_pending hc hs, hliteral⟩
    | ok parts =>
      rw [hparts] at h
      -- all parts are there: the failure is the plan's own
      have hbuild : (plan t).build parts = .error failure := h
      have hlength := (forall₂_of_mapM_ok hparts).length_eq
      exact ⟨t, t.self_mem_preorder, unescape_of_build_error hlength hbuild⟩

end Lower

end Phrasebook.Script

namespace Phrasebook.Marker

open Script

/-! ## Messages of calls -/

/-- The message of a call: its place, its comments, and what its arguments give a translator. -/
inductive Tells (origin : Text) : Node → Message → Prop
  | call (line : Nat) (callee : Node) (arguments : List Node) (comments : List Text) :
      Tells origin (.call line callee arguments comments)
        { location := ("#: " : Text) ++ origin ++ (":" : Text) ++ Text.ofNat line
          comments := comments.map (("#. " : Text) ++ ·)
          payload := payload arguments
          origin }

/-- **Every marked call gives one message**, in the order of the calls, and nothing else gives any. -/
theorem forall₂_tells (origin : Text) (markers : List Marker) (ns : List Node) :
    List.Forall₂ (Tells origin) ((ns.filter Node.isCall).filter (marks markers))
      (ns.filterMap (message? origin markers)) := by
  induction ns with
  | nil => exact .nil
  | cons n ns ih =>
    cases n with
    | call line callee arguments comments =>
      rw [List.filter_cons_of_pos (by rfl), List.filter_cons, List.filterMap_cons, message?]
      cases hmarks : marks markers (.call line callee arguments comments) with
      | true => exact .cons (.call line callee arguments comments) ih
      | false => exact ih
    | identifier line name => exact ih
    | member line object property => exact ih
    | literal line value => exact ih
    | other line kind parts => exact ih

/-- **No call is lost, made up or moved.** In a tree that has its calls where the grammar puts them, the
calls met on a walk of the kept tree are the calls with an argument list of the concrete tree, in the
order of its nodes; each has the line, the arguments and the comments of its call. The messages are those
of the marked ones among them, in the same order. There is no kept tree only where a literal has no
value. -/
theorem calls_of_walk_lower (t : Tree) (h : t.showsCalls = true) :
    (∃ failure, Lower.lower t = .error failure ∧
      ∃ s ∈ t.preorder, (s.kind = .stringLiteral ∨ s.kind = .templateString) ∧
        Escape.unescape (Text.ofChars (s.spelling.drop 1).dropLast) = .error failure) ∨
    ∃ n, Lower.lower t = .ok n ∧
      List.Forall₂ Lower.StandsFor (t.preorder.filter Tree.isCall) (n.walk.filter Node.isCall) ∧
      ∀ origin markers, List.Forall₂ (Tells origin)
        ((n.walk.filter Node.isCall).filter (marks markers)) (messages origin markers n) := by
  cases hlower : Lower.lower t with
  | error failure => exact Or.inl ⟨failure, rfl, Lower.unescape_of_lower_error hlower⟩
  | ok n =>
    refine Or.inr ⟨n, rfl, ?_, fun origin markers => forall₂_tells origin markers n.walk⟩
    rw [Node.walk_eq_preorder]
    exact Lower.forall₂_calls h hlower

/-- A script with calls in parentheses, behind an optional chain, in a template and in arguments. The
template behind `g` is no argument list. -/
def nestedCalls : Tree :=
  Script.parse "a.b?.((f)(1), g`x$\x7b__(/* note */ 'y', (h()))\x7d`)".toList

/-- All four calls of the script are found, in the order of the source. -/
theorem calls_of_walk_lower_nestedCalls :
    nestedCalls.showsCalls = true ∧ (nestedCalls.preorder.filter Tree.isCall).length = 4 ∧
    ∃ n, Lower.lower nestedCalls = .ok n ∧
      List.Forall₂ Lower.StandsFor (nestedCalls.preorder.filter Tree.isCall)
        (n.walk.filter Node.isCall) := by
  have hfacts : nestedCalls.showsCalls = true ∧
      (nestedCalls.preorder.filter Tree.isCall).length = 4 ∧
      (Lower.lower nestedCalls).isOk = true := by
    decide +kernel
  obtain ⟨hshows, hlength, hok⟩ := hfacts
  refine ⟨hshows, hlength, ?_⟩
  rcases calls_of_walk_lower nestedCalls hshows with ⟨failure, hfailure, -⟩ | ⟨n, hn, hcalls, -⟩
  · rw [hfailure] at hok
    cases hok
  · exact ⟨n, hn, hcalls⟩

end Phrasebook.Marker
