import Phrasebook.Marker
import Phrasebook.Proofs.TidyGrammar

/-!
# Phrasebook — parentheses and comments leave no trace

Parentheses around a single expression and comments may stand anywhere in a script. This module takes them
all out of a concrete tree (`Tree.stripped`) and shows that lowering makes the same of both trees, apart
from the translator comments of calls. Hence the same calls are marked, on the same lines and with the same
payloads.

Parentheses are no problem where they stand: the plan of a wrapper passes on the node inside it, so that a
tree and what is inside its wrapper lower alike (`Lower.lower_unwrapped`). They could matter to the node
*around* them, because a plan looks at the children of its node in three ways: it takes the named ones, looks
for the one with a role, and asks a template for a substitution. Stripping keeps the roles and the order of
the children, and leaves the places alone where no expression can stand: the name of a member, the argument
list of a call, and the parts of a template.

Main results:

* `Tree.commentsApart_parse` — no comment of a script plays a part in the construct around it;
* `Tree.isStripped_stripped` — nothing is left to take out;
* `Lower.agrees_plan` — what a plan becomes;
* `Lower.lower_strippedBelow` — lowering makes the same of both trees, by induction along the plans;
* `Marker.messages_of_stripped` — and so does the search for messages.
-/

namespace Phrasebook.Script

/-! ## Stripped trees -/

/-- Whether an expression can stand below a node of the given kind, in the given role: not as the name of a
member, as the argument list of a call, or among the parts of a template. -/
def Kind.takesExpression (parent : Kind) (role : Option Role) : Bool :=
  match parent, role with
  | .memberExpression, some .property => false
  | .callExpression, some .arguments => false
  | .templateString, _ => false
  | _, _ => true

namespace Tree

/-- What stands in parentheses, if it is a single node. -/
def inner? (t : Tree) : Option Tree :=
  if t.kind = .parenthesizedExpression then
    match t.named with
    | [inner] => some inner
    | _ => none
  else none

/-- A tree in the place of another one. -/
def inPlaceOf : Tree → Tree → Tree
  | .node l cs, outer => .node { l with role := outer.label.role } cs

/-- A tree without the parentheses around it. -/
def unwrapped (t : Tree) : Tree :=
  match t.inner? with
  | some inner => inner.inPlaceOf t
  | none => t

mutual

/-- A tree without comments and parentheses below its root. -/
def strippedBelow : Tree → Tree
  | .node l cs => .node l (strippedAll l.kind cs)

/-- The children of a node of the given kind, without comments and parentheses. -/
def strippedAll (parent : Kind) : List Tree → List Tree
  | [] => []
  | c :: cs =>
    if c.kind.isComment then strippedAll parent cs
    else if parent.takesExpression c.label.role then c.strippedBelow.unwrapped :: strippedAll parent cs
    else c.strippedBelow :: strippedAll parent cs

end

/-- A tree without comments, and without parentheses around a single expression. -/
def stripped (t : Tree) : Tree := t.strippedBelow.unwrapped

/-- What becomes of a child of a node of the given kind, if it is no comment. -/
def placed (parent : Kind) (c : Tree) : Tree :=
  if parent.takesExpression c.label.role then c.stripped else c.strippedBelow

/-- There is no comment below a node, and no parentheses around a single expression. -/
def IsStripped (t : Tree) : Prop :=
  ∀ s ∈ t.preorder, ∀ c ∈ s.children, c.kind.isComment = false ∧
    (s.kind.takesExpression c.label.role = true → c.inner? = none)

/-- Comments play no part in the construct around them. -/
def CommentsApart (t : Tree) : Prop := ∀ s ∈ t.preorder, s.kind.isComment = true → s.label.role = none

/-- **Comments of a script** play no part in the constructs around them. -/
theorem commentsApart_parse (text : List Char) : (Script.parse text).CommentsApart :=
  fun s hs => (tidy_parse text s hs).apart

/-! ## Children of stripped trees -/

section

variable (t : Tree)

@[simp] theorem label_strippedBelow : t.strippedBelow.label = t.label := by
  obtain ⟨l, cs⟩ := t
  rw [strippedBelow]
  rfl

@[simp] theorem kind_strippedBelow : t.strippedBelow.kind = t.kind := congrArg Label.kind t.label_strippedBelow

@[simp] theorem line_strippedBelow : t.strippedBelow.line = t.line := congrArg Label.line t.label_strippedBelow

@[simp] theorem spelling_strippedBelow : t.strippedBelow.spelling = t.spelling :=
  congrArg Label.spelling t.label_strippedBelow

@[simp] theorem role_unwrapped : t.unwrapped.label.role = t.label.role := by
  unfold unwrapped
  split
  · next inner _ =>
    obtain ⟨l, cs⟩ := inner
    rfl
  · rfl

/-- The children of a stripped tree: comments are left out, and every other child stands where it did. -/
theorem children_strippedBelow :
    t.strippedBelow.children = (t.children.filter (!·.kind.isComment)).map (placed t.kind) := by
  obtain ⟨l, cs⟩ := t
  rw [strippedBelow]
  show strippedAll l.kind cs = (cs.filter (!·.kind.isComment)).map (placed l.kind)
  induction cs with
  | nil => rfl
  | cons c cs ih =>
    rw [strippedAll, ih]
    by_cases hcomment : c.kind.isComment = true
    · simp [hcomment]
    · by_cases hplace : l.kind.takesExpression c.label.role = true
      · simp [hcomment, hplace, placed, stripped]
      · simp [hcomment, hplace, placed]

end

@[simp] theorem role_placed (parent : Kind) (c : Tree) : (placed parent c).label.role = c.label.role := by
  unfold placed
  split
  · simp [stripped]
  · simp

/-- Where no expression can stand, the root of a child stays. -/
theorem placed_of_not_takesExpression {parent : Kind} {c : Tree}
    (h : parent.takesExpression c.label.role = false) : placed parent c = c.strippedBelow := by
  rw [placed, h]
  rfl

/-- A parenthesis is removed if it is around one node, comments apart. -/
theorem inner?_eq_some_iff {t inner : Tree} :
    t.inner? = some inner ↔ t.kind = .parenthesizedExpression ∧ t.named = [inner] := by
  unfold inner?
  constructor
  · intro h
    split at h
    · next hkind =>
      split at h
      · next hnamed =>
        cases h
        exact ⟨hkind, hnamed⟩
      · cases h
    · cases h
  · rintro ⟨hkind, hnamed⟩
    rw [if_pos hkind, hnamed]

/-- Parentheses are named, and so is what stands in them. -/
theorem isNamed_of_inner? {t inner : Tree} (h : t.inner? = some inner) :
    (t.kind.isNamed = true ∧ t.kind.isComment = false) ∧
      (inner.kind.isNamed = true ∧ inner.kind.isComment = false) := by
  obtain ⟨hkind, hnamed⟩ := inner?_eq_some_iff.mp h
  have hinner : inner ∈ t.named := by
    rw [hnamed]
    exact List.mem_cons_self
  rw [hkind]
  exact ⟨⟨rfl, rfl⟩, by simpa using (List.mem_filter.mp hinner).2⟩

@[simp] theorem kind_inPlaceOf (inner outer : Tree) : (inner.inPlaceOf outer).kind = inner.kind := by
  obtain ⟨l, cs⟩ := inner
  rfl

theorem isNamed_unwrapped (t : Tree) :
    t.unwrapped.kind.isNamed = t.kind.isNamed ∧ t.unwrapped.kind.isComment = t.kind.isComment := by
  unfold unwrapped
  split
  · next inner hinner =>
    obtain ⟨houter, hinside⟩ := isNamed_of_inner? hinner
    rw [kind_inPlaceOf, houter.1, houter.2, hinside.1, hinside.2]
    exact ⟨rfl, rfl⟩
  · exact ⟨rfl, rfl⟩

theorem isNamed_placed (parent : Kind) (c : Tree) :
    (placed parent c).kind.isNamed = c.kind.isNamed ∧ (placed parent c).kind.isComment = c.kind.isComment := by
  unfold placed
  split
  · simp [stripped, isNamed_unwrapped]
  · simp

/-- **Named children** are stripped one by one. -/
theorem named_strippedBelow (t : Tree) : t.strippedBelow.named = t.named.map (placed t.kind) := by
  rw [named, children_strippedBelow, List.filter_map, List.filter_filter, named]
  congr 1
  apply List.filter_congr
  intro c _
  obtain ⟨hnamed, hcomment⟩ := isNamed_placed t.kind c
  simp only [Function.comp_apply, hnamed, hcomment]
  cases c.kind.isNamed <;> cases c.kind.isComment <;> rfl

/-- What is looked for is found among what is kept, if it is not among what is left out. -/
theorem find?_map_filter {keep wanted : Tree → Bool} {f : Tree → Tree} (hf : ∀ c, wanted (f c) = wanted c)
    {cs : List Tree} (hkeep : ∀ c ∈ cs, keep c = false → wanted c = false) :
    ((cs.filter keep).map f).find? wanted = (cs.find? wanted).map f := by
  induction cs with
  | nil => rfl
  | cons c cs ih =>
    obtain ⟨hc, hcs⟩ := List.forall_mem_cons.mp hkeep
    by_cases hkept : keep c = true
    · rw [List.filter_cons_of_pos hkept, List.map_cons, List.find?_cons, List.find?_cons, hf, ih hcs]
      cases wanted c <;> rfl
    · have hother := hc (Bool.eq_false_iff.mpr hkept)
      rw [List.filter_cons_of_neg hkept, ih hcs, List.find?_cons, hother]

/-- **The child with a role** is found where it was, because no comment has one. -/
theorem child?_strippedBelow {t : Tree} (h : t.CommentsApart) (role : Role) :
    t.strippedBelow.child? role = (t.child? role).map (placed t.kind) := by
  rw [child?, children_strippedBelow]
  refine find?_map_filter (fun c => by rw [role_placed]) ?_
  intro c hc hcomment
  rw [Bool.not_eq_false'] at hcomment
  rw [h c (mem_preorder_of_mem_children hc c.self_mem_preorder) hcomment]
  rfl

/-! ## Nothing is left to strip -/

theorem children_inPlaceOf (inner outer : Tree) : (inner.inPlaceOf outer).children = inner.children := by
  obtain ⟨l, cs⟩ := inner
  rfl

theorem inner?_inPlaceOf (inner outer : Tree) : (inner.inPlaceOf outer).inner? = inner.inner? := by
  obtain ⟨l, cs⟩ := inner
  rfl

/-- A tree is stripped if its children are, and nothing is left to take out among them. -/
theorem isStripped_of_children {t : Tree}
    (hlocal : ∀ c ∈ t.children, c.kind.isComment = false ∧
      (t.kind.takesExpression c.label.role = true → c.inner? = none))
    (hbelow : ∀ c ∈ t.children, c.IsStripped) : t.IsStripped := by
  intro s hs
  rw [preorder_eq, preorderAll_eq_flatMap] at hs
  rcases List.mem_cons.mp hs with rfl | hs
  · exact hlocal
  · obtain ⟨c, hc, hs⟩ := List.mem_flatMap.mp hs
    exact hbelow c hc s hs

theorem IsStripped.children {t : Tree} (h : t.IsStripped) : ∀ c ∈ t.children, c.IsStripped :=
  fun _ hc s hs => h s (mem_preorder_of_mem_children hc hs)

/-- What is left without parentheses of a stripped tree is stripped. -/
theorem IsStripped.unwrapped {t : Tree} (h : t.IsStripped) : t.unwrapped.IsStripped := by
  unfold Tree.unwrapped
  split
  · next inner hinner =>
    have hmem : inner ∈ t.named := by
      rw [(inner?_eq_some_iff.mp hinner).2]
      exact List.mem_cons_self
    have hstripped := h.children inner (named_subset hmem)
    -- its role says nothing about what is below a node
    refine isStripped_of_children ?_ ?_
    · rw [children_inPlaceOf, kind_inPlaceOf]
      exact hstripped inner inner.self_mem_preorder
    · rw [children_inPlaceOf]
      exact hstripped.children
  · exact h

theorem exists_of_mem_children_strippedBelow {t d : Tree} (h : d ∈ t.strippedBelow.children) :
    ∃ c ∈ t.children, c.kind.isComment = false ∧ d = placed t.kind c := by
  rw [children_strippedBelow] at h
  obtain ⟨c, hc, rfl⟩ := List.mem_map.mp h
  obtain ⟨hmem, hcomment⟩ := List.mem_filter.mp hc
  exact ⟨c, hmem, by simpa using hcomment, rfl⟩

/-- Parentheses are taken away from what stands in parentheses, too. -/
theorem exists_of_inner?_strippedBelow {t inner : Tree} (h : t.strippedBelow.inner? = some inner) :
    ∃ c ∈ t.children, inner = c.stripped := by
  obtain ⟨hkind, hnamed⟩ := inner?_eq_some_iff.mp h
  rw [kind_strippedBelow] at hkind
  rw [named_strippedBelow, hkind, List.map_eq_singleton_iff] at hnamed
  obtain ⟨c, hc, hplaced⟩ := hnamed
  refine ⟨c, named_subset (by rw [hc]; exact List.mem_cons_self), ?_⟩
  rw [← hplaced]
  exact if_pos rfl

/-- Stripping leaves no parentheses around an expression, below the root and at it. -/
theorem isStripped_strippedBelow (t : Tree) : t.strippedBelow.IsStripped ∧ t.stripped.inner? = none := by
  induction hsize : t.size using Nat.strongRecOn generalizing t with
  | ind size ih =>
    subst hsize
    -- children are smaller, so that the induction is on the size
    have hchild : ∀ c ∈ t.children, c.strippedBelow.IsStripped ∧ c.stripped.inner? = none := by
      intro c hc
      have hsmaller := size_le_sizeAll hc
      exact ih c.size (by rw [size_eq t]; omega) c rfl
    constructor
    · refine isStripped_of_children ?_ ?_
      · intro d hd
        obtain ⟨c, hc, hcomment, rfl⟩ := exists_of_mem_children_strippedBelow hd
        -- a child where an expression can stand has been stripped at its root
        rw [(isNamed_placed t.kind c).2, kind_strippedBelow, role_placed]
        refine ⟨hcomment, fun hplace => ?_⟩
        rw [placed, if_pos hplace]
        exact (hchild c hc).2
      · intro d hd
        obtain ⟨c, hc, -, rfl⟩ := exists_of_mem_children_strippedBelow hd
        unfold placed
        split
        -- and below that root there are no parentheses either
        · exact (hchild c hc).1.unwrapped
        · exact (hchild c hc).1
    · unfold stripped unwrapped
      split
      · next inner hinner =>
        -- what stood in the parentheses has lost its own
        obtain ⟨c, hc, rfl⟩ := exists_of_inner?_strippedBelow hinner
        rw [inner?_inPlaceOf]
        exact (hchild c hc).2
      · next hinner => exact hinner

/-- **Nothing is left to take out** of a stripped tree, below its root and around it. -/
theorem isStripped_stripped (t : Tree) : t.stripped.IsStripped ∧ t.stripped.inner? = none :=
  ⟨t.isStripped_strippedBelow.1.unwrapped, t.isStripped_strippedBelow.2⟩

end Tree

/-! ## Kept trees without comments -/

namespace Node

mutual

/-- A kept tree without the comments of its calls. -/
def withoutComments : Node → Node
  | .identifier l name => .identifier l name
  | .member l object property => .member l object.withoutComments property
  | .literal l value => .literal l value
  | .call l callee arguments _ => .call l callee.withoutComments (withoutCommentsAll arguments) []
  | .other l kind parts => .other l kind (withoutCommentsAll parts)

/-- Kept trees without the comments of their calls. -/
def withoutCommentsAll : List Node → List Node
  | [] => []
  | n :: ns => n.withoutComments :: withoutCommentsAll ns

end

theorem withoutCommentsAll_eq_map (ns : List Node) : withoutCommentsAll ns = ns.map withoutComments := by
  induction ns with
  | nil => rfl
  | cons n ns ih => rw [withoutCommentsAll, ih, List.map_cons]

theorem children_withoutComments (n : Node) :
    n.withoutComments.children = n.children.map withoutComments := by
  cases n <;> simp [withoutComments, children, withoutCommentsAll_eq_map]

/-- Leaving out comments keeps the nodes and their order. -/
theorem preorder_withoutComments (n : Node) : n.withoutComments.preorder = n.preorder.map withoutComments := by
  -- by the size of the tree: the children are smaller
  induction hsize : n.size using Nat.strongRecOn generalizing n with
  | ind size ih =>
    subst hsize
    have hchildren : ∀ c ∈ n.children, c.withoutComments.preorder = c.preorder.map withoutComments := by
      intro c hc
      have hsmaller := size_le_sizeAll hc
      exact ih c.size (by rw [size_eq n]; omega) c rfl
    rw [preorder_eq, preorder_eq n, children_withoutComments, preorderAll_eq_flatMap, preorderAll_eq_flatMap,
      List.map_cons, List.flatMap_map, List.map_flatMap]
    congr 1
    exact List.flatMap_congr hchildren

end Node

namespace Lower

/-! ## Plans of stripped trees -/

/-- What is asked for a role does not depend on the role that the tree itself plays. -/
theorem lower_inPlaceOf (inner outer : Tree) : lower (inner.inPlaceOf outer) = lower inner := by
  obtain ⟨l, cs⟩ := inner
  rw [lower_eq, lower_eq (.node l cs)]
  rfl

/-- **Parentheses leave no trace** where they stand. -/
theorem lower_unwrapped (t : Tree) : lower t.unwrapped = lower t := by
  unfold Tree.unwrapped
  split
  · next inner hinner =>
    obtain ⟨hkind, hnamed⟩ := Tree.inner?_eq_some_iff.mp hinner
    rw [lower_inPlaceOf, lower_eq t, plan, hkind]
    simp only [parenthesized, hnamed, List.mapM_cons, List.mapM_nil]
    cases lower inner <;> rfl
  · rfl

theorem lower_placed (parent : Kind) (c : Tree) : lower (c.placed parent) = lower c.strippedBelow := by
  unfold Tree.placed
  split
  · exact lower_unwrapped _
  · rfl

/-- Lowering trees that were stripped where they stand is lowering them with their roots kept. -/
theorem mapM_lower_placed (parent : Kind) (cs : List Tree) :
    (cs.map (Tree.placed parent)).mapM lower = cs.mapM fun c => lower c.strippedBelow := by
  rw [List.mapM_map]
  congr 1
  funext c
  exact lower_placed parent c

/-- The plan `q` is the plan `p` for a stripped tree: it asks for the same nodes, stripped, and builds the
same node from them, apart from comments. -/
structure Agrees (p q : Plan) : Prop where
  pending : q.pending.mapM lower = p.pending.mapM fun c => lower c.strippedBelow
  build   : ∀ parts parts', parts.length = p.pending.length →
    parts'.map Node.withoutComments = parts.map Node.withoutComments →
    (q.build parts').map Node.withoutComments = (p.build parts).map Node.withoutComments

theorem agrees_leaf (node : Node) : Agrees (leaf node) (leaf node) :=
  ⟨rfl, fun _ _ _ _ => rfl⟩

theorem agrees_quoted (line : Nat) (spelling : List Char) : Agrees (quoted line spelling) (quoted line spelling) :=
  ⟨rfl, fun _ _ _ _ => rfl⟩

theorem agrees_keep (t : Tree) : Agrees (keep t) (keep t.strippedBelow) := by
  constructor
  · show t.strippedBelow.named.mapM lower = _
    rw [t.named_strippedBelow, mapM_lower_placed]
    rfl
  · intro parts parts' _ hparts
    simp [keep, Except.map, Node.withoutComments, Node.withoutCommentsAll_eq_map, hparts]

/-- A plan that asks for a single node and builds its own from it. -/
theorem agrees_single {p q : Plan} {c : Tree} {parent : Kind} (hp : p.pending = [c])
    (hq : q.pending = [c.placed parent])
    (hbuild : ∀ n n', n'.withoutComments = n.withoutComments →
      (q.build [n']).map Node.withoutComments = (p.build [n]).map Node.withoutComments) : Agrees p q := by
  constructor
  · rw [hp, hq]
    exact mapM_lower_placed parent [c]
  · intro parts parts' hlength hparts
    rw [hp, List.length_singleton, List.length_eq_one_iff] at hlength
    obtain ⟨n, rfl⟩ := hlength
    obtain ⟨n', rfl, hn⟩ := List.map_eq_singleton_iff.mp hparts
    exact hbuild n n' hn

/-- The plan of a parenthesis is the same around the stripped expression. -/
theorem agrees_parenthesized (t : Tree) : Agrees (parenthesized t) (parenthesized t.strippedBelow) := by
  have hkeep := agrees_keep t
  have hnamed' := t.named_strippedBelow
  unfold parenthesized
  rw [hnamed']
  cases t.named with
  | nil => exact hkeep
  | cons inner others =>
    cases others with
    | nil => exact agrees_single rfl rfl fun _ _ hn => congrArg Except.ok hn
    -- parentheses around several nodes stay, in both trees
    | cons second others => exact hkeep

/-- The plan of a member expression is the same for the stripped one, whose object is found in its place. -/
theorem agrees_member {t : Tree} (h : t.CommentsApart) (hkind : t.kind = .memberExpression) :
    Agrees (member t) (member t.strippedBelow) := by
  have hkeep := agrees_keep t
  unfold member
  rw [Tree.child?_strippedBelow h, Tree.child?_strippedBelow h, hkind]
  cases hobject : t.child? .object with
  | none => exact hkeep
  | some object =>
    cases hproperty : t.child? .property with
    | none => exact hkeep
    | some property =>
      -- its text is read off the name of the member, so its root must be the same
      have hplaced : property.placed .memberExpression = property.strippedBelow :=
        Tree.placed_of_not_takesExpression (by rw [Tree.role_of_child? hproperty]; rfl)
      simp only [Option.map_some, hplaced, property.spelling_strippedBelow, t.line_strippedBelow]
      refine agrees_single rfl rfl fun n n' hn => ?_
      simp only [Except.map, Node.withoutComments, hn]

/-- The plan of a call asks for the stripped callee and the stripped arguments. -/
theorem agrees_call {t : Tree} (h : t.CommentsApart) (hkind : t.kind = .callExpression) :
    Agrees (call t) (call t.strippedBelow) := by
  -- without a callee or arguments the node is kept as it is
  have hkeep := agrees_keep t
  unfold call
  rw [Tree.child?_strippedBelow h, Tree.child?_strippedBelow h, hkind]
  cases hcallee : t.child? .function with
  | none => exact hkeep
  | some callee =>
    cases harguments : t.child? .arguments with
    | none => exact hkeep
    | some arguments =>
      -- the argument list stays one, and what stands in it is stripped
      have hplaced : arguments.placed .callExpression = arguments.strippedBelow :=
        Tree.placed_of_not_takesExpression (by rw [Tree.role_of_child? harguments]; rfl)
      simp only [Option.map_some, hplaced, arguments.kind_strippedBelow]
      split
      · -- the comments before the first argument are gone, but only the call keeps them
        constructor
        · show (callee.placed .callExpression :: arguments.strippedBelow.named).mapM lower = _
          show _ = (callee :: arguments.named).mapM fun c => lower c.strippedBelow
          rw [arguments.named_strippedBelow, List.mapM_cons, mapM_lower_placed, lower_placed, List.mapM_cons]
        · intro parts parts' hlength hparts
          obtain ⟨n, ns, rfl⟩ := List.exists_cons_of_length_eq_add_one hlength
          obtain ⟨n', ns', rfl, hn, hns⟩ := List.map_eq_cons_iff.mp hparts
          simp [Except.map, Node.withoutComments, Node.withoutCommentsAll_eq_map, hn, hns]
      · exact hkeep

/-- A template has its substitutions where it had them. -/
theorem any_templateSubstitution {t : Tree} (hkind : t.kind = .templateString) :
    t.strippedBelow.children.any (·.kind == .templateSubstitution) =
      t.children.any (·.kind == .templateSubstitution) := by
  rw [t.children_strippedBelow, List.any_map, List.any_filter, hkind]
  congr 1
  funext c
  -- the parts of a template keep their kinds, and a comment is no substitution
  have hplaced : c.placed .templateString = c.strippedBelow := Tree.placed_of_not_takesExpression rfl
  rw [Function.comp_apply, hplaced, c.kind_strippedBelow]
  cases c.kind <;> rfl

/-- **The plan of a stripped tree.** The kind of the node decides, and stripping keeps it. -/
theorem agrees_plan {t : Tree} (h : t.CommentsApart) : Agrees (plan t) (plan t.strippedBelow) := by
  unfold plan
  rw [t.kind_strippedBelow, t.line_strippedBelow, t.spelling_strippedBelow]
  split
  · exact agrees_parenthesized t
  · exact agrees_leaf _
  · exact agrees_leaf _
  · exact agrees_leaf _
  · next hkind => exact agrees_member h hkind
  · next hkind => exact agrees_call h hkind
  · exact agrees_quoted _ _
  · next hkind =>
    -- a template is quoted if nothing is substituted in it
    rw [any_templateSubstitution hkind]
    split
    · exact agrees_keep t
    · exact agrees_quoted _ _
  · exact agrees_leaf _
  · exact agrees_leaf _
  · exact agrees_leaf _
  · exact agrees_leaf _
  · exact agrees_keep t

/-! ## The kept trees of both -/

/-- Comments may be taken away from one tree after the other, or from all in the end. -/
theorem map_mapM (f : Tree → Except Escape.Failure Node) (cs : List Tree) :
    (cs.mapM f).map (List.map Node.withoutComments) = cs.mapM fun c => (f c).map Node.withoutComments := by
  induction cs with
  | nil => rfl
  | cons c cs ih =>
    rw [List.mapM_cons, List.mapM_cons, ← ih]
    cases f c with
    | error failure => rfl
    | ok n => cases cs.mapM f <;> rfl

/-- Trees that lower alike one by one lower alike together. -/
theorem mapM_withoutComments {f g : Tree → Except Escape.Failure Node} {cs : List Tree}
    (h : ∀ c ∈ cs, (f c).map Node.withoutComments = (g c).map Node.withoutComments) :
    (cs.mapM f).map (List.map Node.withoutComments) = (cs.mapM g).map (List.map Node.withoutComments) := by
  rw [map_mapM, map_mapM]
  induction cs with
  | nil => rfl
  | cons c cs ih =>
    obtain ⟨hc, hcs⟩ := List.forall_mem_cons.mp h
    rw [List.mapM_cons, List.mapM_cons, hc, ih hcs]

/-- Plans that agree build the same from parts that differ in comments only, and fail where these do. -/
theorem Agrees.bind {p q : Plan} (h : Agrees p q) {found found' : Except Escape.Failure (List Node)}
    (hfound : found'.map (List.map Node.withoutComments) = found.map (List.map Node.withoutComments))
    (hlength : ∀ parts, found = .ok parts → parts.length = p.pending.length) :
    (found' >>= q.build).map Node.withoutComments = (found >>= p.build).map Node.withoutComments := by
  cases found with
  | error failure =>
    cases found' with
    | error failure' =>
      cases hfound
      rfl
    | ok parts' => cases hfound
  | ok parts =>
    cases found' with
    | error failure' => cases hfound
    | ok parts' => exact h.build parts parts' (hlength parts rfl) (Except.ok.inj hfound)

/-- **Both trees lower alike**, apart from comments. -/
theorem lower_strippedBelow {t : Tree} (h : t.CommentsApart) :
    (lower t.strippedBelow).map Node.withoutComments = (lower t).map Node.withoutComments := by
  -- by the size of the tree: a plan asks for smaller trees only
  induction hsize : t.size using Nat.strongRecOn generalizing t with
  | ind size ih =>
    subst hsize
    have hagrees := agrees_plan h
    have hpending : ((plan t).pending.mapM fun c => lower c.strippedBelow).map (List.map Node.withoutComments) =
        ((plan t).pending.mapM lower).map (List.map Node.withoutComments) :=
      mapM_withoutComments fun c hc =>
        ih c.size (size_lt_of_mem_pending hc) (fun s hs => h s (mem_preorder_of_mem_pending hc hs)) rfl
    rw [lower_eq t, lower_eq t.strippedBelow, hagrees.pending]
    exact hagrees.bind hpending fun parts hparts => (forall₂_of_mapM_ok hparts).length_eq.symm

/-- The root may stand in parentheses itself. -/
theorem lower_stripped {t : Tree} (h : t.CommentsApart) :
    (lower t.stripped).map Node.withoutComments = (lower t).map Node.withoutComments := by
  rw [Tree.stripped, lower_unwrapped]
  exact lower_strippedBelow h

end Lower

end Phrasebook.Script

namespace Phrasebook

open Script

/-- A message without what its calls say to translators. -/
def Message.withoutComments (m : Message) : Message := { m with comments := [] }

namespace Marker

/-! ## Messages of both -/

theorem segmentsFrom?_withoutComments (n : Node) (read : List Text) :
    segmentsFrom? n.withoutComments read = segmentsFrom? n read := by
  fun_induction segmentsFrom? n read with
  | case2 line object property read ih => rw [Node.withoutComments, segmentsFrom?, ih]
  | _ => rw [Node.withoutComments, segmentsFrom?]

theorem literal?_withoutComments (n : Node) : literal? n.withoutComments = literal? n := by
  cases n <;> rw [Node.withoutComments] <;> rfl

theorem payload_withoutComments (arguments : List Node) :
    payload (arguments.map Node.withoutComments) = payload arguments := by
  match arguments with
  | [] => rfl
  | [first] => simp only [List.map, payload, value, literal?_withoutComments]
  | first :: second :: others => simp only [List.map, payload, value, text?, literal?_withoutComments]

theorem marks_withoutComments (markers : List Marker) (n : Node) :
    marks markers n.withoutComments = marks markers n := by
  cases n with
  | call line callee arguments comments =>
    simp only [Node.withoutComments, marks, Node.withoutCommentsAll_eq_map, List.isEmpty_map, segments?,
      segmentsFrom?_withoutComments]
  | _ => rfl

/-- Comments take no part in the search for messages. -/
theorem message?_withoutComments (origin : Text) (markers : List Marker) (n : Node) :
    message? origin markers n.withoutComments = (message? origin markers n).map Message.withoutComments := by
  have hmarks := marks_withoutComments markers n
  cases n with
  | call line callee arguments comments =>
    rw [Node.withoutComments] at hmarks ⊢
    rw [message?, message?, hmarks, Node.withoutCommentsAll_eq_map, payload_withoutComments]
    split <;> rfl
  | _ => rfl

theorem messages_withoutComments (origin : Text) (markers : List Marker) (n : Node) :
    messages origin markers n.withoutComments = (messages origin markers n).map Message.withoutComments := by
  rw [messages, messages, Node.walk_eq_preorder, Node.walk_eq_preorder, Node.preorder_withoutComments,
    List.filterMap_map, List.map_filterMap]
  congr 1
  funext m
  exact message?_withoutComments origin markers m

theorem map_messages_withoutComments (origin : Text) (markers : List Marker)
    (result : Except Escape.Failure Node) :
    (result.map Node.withoutComments).map (messages origin markers) =
      result.map fun n => (messages origin markers n).map Message.withoutComments := by
  cases result with
  | error failure => rfl
  | ok n => exact congrArg Except.ok (messages_withoutComments origin markers n)

/-- **Parentheses and comments never change what is extracted.** A stripped tree has no comment below its
root, and no parentheses around a single expression wherever one can stand. It lowers as the tree does,
apart from the comments of calls, and fails as the tree does. For all markers, both give the same number of
messages, in the same order, with the same places and payloads. -/
theorem messages_of_stripped (t : Tree) (h : t.CommentsApart) :
    (t.stripped.IsStripped ∧ t.stripped.inner? = none) ∧
    (Lower.lower t.stripped).map Node.withoutComments = (Lower.lower t).map Node.withoutComments ∧
    ∀ origin markers,
      (Lower.lower t.stripped).map (fun n => (messages origin markers n).map Message.withoutComments) =
        (Lower.lower t).map fun n => (messages origin markers n).map Message.withoutComments := by
  refine ⟨t.isStripped_stripped, Lower.lower_stripped h, fun origin markers => ?_⟩
  rw [← map_messages_withoutComments, ← map_messages_withoutComments, Lower.lower_stripped h]

/-- A script with comments and parentheses around callees, the object of a member and arguments. -/
def wrappedCalls : Tree :=
  Script.parse "(/* a */ (i18n).t)(// b\n(('x')), /* c */ ('y'));\n(__)(/* d */ (1));".toList

/-- Less than half of the tree is left, and its two messages stay the same. -/
theorem messages_of_stripped_wrappedCalls :
    let markers : List Marker := [["i18n", "t"], ["__"]]
    let found (t : Tree) := (Lower.lower t).map fun n => (messages "a.js" markers n).map Message.withoutComments
    wrappedCalls.CommentsApart ∧ wrappedCalls.size = 47 ∧ wrappedCalls.stripped.size = 22 ∧
    (found wrappedCalls).toOption.map (·.map fun m => (m.location, m.payload.show?)) =
      some [(("#: a.js:1" : Text), some ("('x', 'y')" : Text)), (("#: a.js:3" : Text), some ("1" : Text))] ∧
    found wrappedCalls.stripped = found wrappedCalls := by
  intro markers found
  have hapart : wrappedCalls.CommentsApart := Tree.commentsApart_parse _
  have hfound : (found wrappedCalls).toOption.map (·.map fun m => (m.location, m.payload.show?)) =
      some [(("#: a.js:1" : Text), some ("('x', 'y')" : Text)), (("#: a.js:3" : Text), some ("1" : Text))] := by
    decide +kernel
  obtain ⟨-, -, hmessages⟩ := messages_of_stripped wrappedCalls hapart
  exact ⟨hapart, by decide +kernel, by decide +kernel, hfound, hmessages "a.js" markers⟩

end Marker

end Phrasebook
