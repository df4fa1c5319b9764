import Mathlib.Data.List.Forall2
import Phrasebook.Script.Lower

/-!
# Phrasebook — traversals without recursion

Both traversals of a script keep a stack of their own: `Node.walk` lists the nodes of a kept tree, and
`Lower.lower` makes the kept tree out of the concrete one. Their fuel suffices for every tree, and what
they compute is what the obvious recursion computes.

* `Node.walk_eq_preorder` — a walk lists a node, then the trees below it in order;
* `Lower.form_plan` — the forms that a plan can have;
* `Lower.lower_eq` — the kept tree of a node is built from those of the nodes that its plan asks for,
  and from nothing else;
* `Lower.lower_induction` — induction along lowering.

The invariant behind the last one is `Lower.Lowers`: with some number of steps, and any number of
steps and plans left over, the machine comes to the point where the node of a tree is handed to the plan
below.
-/

namespace Phrasebook

/-- A value that has no items. -/
def Value.isScalar : Value → Bool
  | .tuple _ => false
  | .list _ => false
  | _ => true

theorem Value.isScalar_number (literal : Text) : (number literal).isScalar = true := by
  rw [number]
  split
  · rfl
  · split <;> rfl

namespace Script

/-! ## Kept trees -/

namespace Node

mutual

/-- A node, then all nodes below it. -/
def preorder : Node → List Node
  | .identifier l name => [.identifier l name]
  | .member l object property => .member l object property :: object.preorder
  | .literal l value => [.literal l value]
  | .call l callee arguments comments =>
    .call l callee arguments comments :: (callee.preorder ++ preorderAll arguments)
  | .other l kind parts => .other l kind parts :: preorderAll parts

/-- The nodes of trees, one tree after the other. -/
def preorderAll : List Node → List Node
  | [] => []
  | n :: ns => n.preorder ++ preorderAll ns

end

theorem preorder_eq (n : Node) : n.preorder = n :: preorderAll n.children := by
  cases n <;> simp [preorder, children, preorderAll]

@[simp] theorem preorderAll_append (a b : List Node) :
    preorderAll (a ++ b) = preorderAll a ++ preorderAll b := by
  induction a with
  | nil => rfl
  | cons n a ih => rw [List.cons_append, preorderAll, ih, preorderAll, List.append_assoc]

theorem preorderAll_eq_flatMap (ns : List Node) : preorderAll ns = ns.flatMap preorder := by
  induction ns with
  | nil => rfl
  | cons n ns ih => rw [preorderAll, ih, List.flatMap_cons]

theorem size_eq (n : Node) : n.size = sizeAll n.children + 1 := by
  cases n <;> simp [size, children, sizeAll]

mutual

theorem length_preorder (n : Node) : n.preorder.length = n.size := by
  cases n with
  | identifier line name => rfl
  | member line object property =>
    rw [preorder, List.length_cons, length_preorder object, size]
  | literal line value => rfl
  | call line callee arguments comments =>
    rw [preorder, List.length_cons, List.length_append, length_preorder callee,
      length_preorderAll arguments, size]
  | other line kind parts => rw [preorder, List.length_cons, length_preorderAll parts, size]

theorem length_preorderAll (ns : List Node) : (preorderAll ns).length = sizeAll ns := by
  cases ns with
  | nil => rfl
  | cons n ns =>
    rw [preorderAll, List.length_append, length_preorder n, length_preorderAll ns, sizeAll]

end

/-- With so many rounds, so many nodes are listed: the stack of a walk, read from its top, is what
remains of the preorder. -/
theorem walkFrom_eq_take (rounds : Nat) (stack : List Node) :
    walkFrom rounds stack = (preorderAll stack).take rounds := by
  induction rounds generalizing stack with
  | zero => rw [walkFrom, List.take_zero]
  | succ rounds ih =>
    cases stack with
    | nil => rfl
    | cons n stack =>
      rw [walkFrom, ih, preorderAll_append, preorderAll, preorder_eq, List.cons_append, List.take_succ_cons]

theorem size_le_sizeAll {n : Node} {ns : List Node} (h : n ∈ ns) : n.size ≤ sizeAll ns := by
  induction ns with
  | nil => cases h
  | cons m ns ih =>
    rw [sizeAll]
    rcases List.mem_cons.mp h with rfl | hrest
    · omega
    · have := ih hrest
      omega

@[simp] theorem self_mem_preorder (n : Node) : n ∈ n.preorder := by
  rw [preorder_eq]
  exact List.mem_cons_self

/-- The children of the nodes of a tree are nodes of it. -/
theorem mem_preorder_of_mem_children {root n c : Node} (hn : n ∈ root.preorder)
    (hc : c ∈ n.children) : c ∈ root.preorder := by
  -- by the size of the tree: the node is its root, or stands below one of the children
  induction hsize : root.size using Nat.strongRecOn generalizing root with
  | ind size ih =>
    rw [preorder_eq, preorderAll_eq_flatMap] at hn ⊢
    rcases List.mem_cons.mp hn with rfl | hbelow
    · exact List.mem_cons_of_mem _ (List.mem_flatMap.mpr ⟨c, hc, self_mem_preorder c⟩)
    · obtain ⟨d, hd, hn⟩ := List.mem_flatMap.mp hbelow
      have hsmaller : d.size < size := by
        have := size_le_sizeAll hd
        rw [size_eq root] at hsize
        omega
      exact List.mem_cons_of_mem _ (List.mem_flatMap.mpr ⟨d, hd, ih d.size hsmaller hn rfl⟩)

/-- **A walk is the preorder.** -/
@[simp] theorem walk_eq_preorder (root : Node) : root.walk = root.preorder := by
  rw [walk, walkFrom_eq_take, preorderAll, preorderAll, List.append_nil, ← length_preorder,
    List.take_length]

end Node

/-! ## Concrete trees -/

namespace Tree

mutual

/-- A tree, then all trees below it. -/
def preorder : Tree → List Tree
  | .node l cs => .node l cs :: preorderAll cs

/-- The trees at and below the roots of a list, one after the other. -/
def preorderAll : List Tree → List Tree
  | [] => []
  | t :: ts => t.preorder ++ preorderAll ts

end

theorem preorder_eq (t : Tree) : t.preorder = t :: preorderAll t.children := by
  cases t
  rw [preorder]
  rfl

theorem preorderAll_eq_flatMap (ts : List Tree) : preorderAll ts = ts.flatMap preorder := by
  induction ts with
  | nil => rfl
  | cons t ts ih => rw [preorderAll, ih, List.flatMap_cons]

@[simp] theorem self_mem_preorder (t : Tree) : t ∈ t.preorder := by
  rw [preorder_eq]
  exact List.mem_cons_self

/-- What is below a child is below its parent. -/
theorem mem_preorder_of_mem_children {t c s : Tree} (hc : c ∈ t.children) (hs : s ∈ c.preorder) :
    s ∈ t.preorder := by
  rw [preorder_eq, preorderAll_eq_flatMap]
  exact List.mem_cons_of_mem _ (List.mem_flatMap.mpr ⟨c, hc, hs⟩)

theorem size_eq (t : Tree) : t.size = sizeAll t.children + 1 := by
  cases t
  rw [size]
  rfl

theorem size_pos (t : Tree) : 0 < t.size := by
  rw [size_eq]
  omega

theorem size_le_sizeAll {t : Tree} {ts : List Tree} (h : t ∈ ts) : t.size ≤ sizeAll ts := by
  induction ts with
  | nil => cases h
  | cons u ts ih =>
    rw [sizeAll]
    rcases List.mem_cons.mp h with rfl | h
    · omega
    · have := ih h
      omega

/-- Leaving out trees makes a list no larger. -/
theorem sizeAll_filter_le (p : Tree → Bool) (ts : List Tree) :
    sizeAll (ts.filter p) ≤ sizeAll ts := by
  induction ts with
  | nil => exact Nat.le_refl _
  | cons t ts ih =>
    rw [List.filter_cons]
    split
    · rw [sizeAll, sizeAll]
      omega
    · rw [sizeAll]
      omega

theorem sizeAll_named_lt (t : Tree) : sizeAll t.named < t.size := by
  have := sizeAll_filter_le (fun c => c.kind.isNamed && !c.kind.isComment) t.children
  rw [size_eq, named]
  omega

theorem named_subset {t c : Tree} (h : c ∈ t.named) : c ∈ t.children := (List.mem_filter.mp h).1

theorem child?_mem {t c : Tree} {role : Role} (h : t.child? role = some c) : c ∈ t.children :=
  List.mem_of_find?_eq_some h

theorem role_of_child? {t c : Tree} {role : Role} (h : t.child? role = some c) :
    c.label.role = some role := by
  have := List.find?_some h
  simpa using this

/-- Children with different roles are different children. -/
theorem size_add_size_le {ts : List Tree} {a b : Tree} (ha : a ∈ ts) (hb : b ∈ ts)
    (hrole : a.label.role ≠ b.label.role) : a.size + b.size ≤ sizeAll ts := by
  induction ts with
  | nil => cases ha
  | cons t ts ih =>
    rw [sizeAll]
    rcases List.mem_cons.mp ha with rfl | ha'
    · rcases List.mem_cons.mp hb with rfl | hb'
      · exact absurd rfl hrole
      · have := size_le_sizeAll hb'
        omega
    · rcases List.mem_cons.mp hb with rfl | hb'
      · have := size_le_sizeAll ha'
        omega
      · have := ih ha' hb'
        omega

end Tree

/-! ## Lowering -/

namespace Lower

/-- The forms that the plan of a node can have. -/
inductive Form (t : Tree) (p : Plan) : Prop
  /-- The node keeps its kind and its named children. A call of this form has no argument list. -/
  | keep (hpending : p.pending = t.named)
      (hbuild : ∀ parts, p.build parts = .ok (.other t.line t.kind parts))
      (hcall : t.kind = .callExpression → ∀ callee arguments, t.child? .function = some callee →
        t.child? .arguments = some arguments → arguments.kind ≠ .arguments)
  /-- The node is a name or a value. -/
  | leaf (hkind : t.kind ∈ [Kind.identifier, .thisKeyword, .superKeyword, .numberLiteral,
        .trueLiteral, .falseLiteral, .nullLiteral])
      (hpending : p.pending = []) (node : Node)
      (hnode : (∃ name, node = .identifier t.line name) ∨
        ∃ value, node = .literal t.line value ∧ value.isScalar = true)
      (hbuild : p.build [] = .ok node)
  /-- The node is a text between quotes. -/
  | quoted (hkind : t.kind = .stringLiteral ∨
        (t.kind = .templateString ∧ ∀ c ∈ t.children, c.kind ≠ .templateSubstitution))
      (hpending : p.pending = [])
      (hbuild : p.build [] =
        (Escape.unescape (Text.ofChars (t.spelling.drop 1).dropLast)).map (.literal t.line ∘ .text))
  /-- The node gives way to the only one inside it. -/
  | single (inner : Tree) (hkind : t.kind = .parenthesizedExpression) (hnamed : t.named = [inner])
      (hpending : p.pending = [inner]) (hbuild : ∀ node, p.build [node] = .ok node)
  /-- The node is a member of the object below it. -/
  | member (object property : Tree) (hkind : t.kind = .memberExpression)
      (hobject : t.child? .object = some object) (hproperty : t.child? .property = some property)
      (hpending : p.pending = [object])
      (hbuild : ∀ node, p.build [node] = .ok (.member t.line node (Text.ofChars property.spelling)))
  /-- The node is a call. -/
  | call (callee arguments : Tree) (hkind : t.kind = .callExpression)
      (hcallee : t.child? .function = some callee) (harguments : t.child? .arguments = some arguments)
      (hlist : arguments.kind = .arguments) (hpending : p.pending = callee :: arguments.named)
      (hbuild : ∀ node nodes, p.build (node :: nodes) =
        .ok (.call t.line node nodes (leadingComments arguments.children)))

theorem form_keep {t : Tree} (h : t.kind ≠ .callExpression) : Form t (keep t) :=
  .keep rfl (fun _ => rfl) fun hkind => absurd hkind h

theorem form_parenthesized {t : Tree} (h : t.kind = .parenthesizedExpression) :
    Form t (parenthesized t) := by
  rw [parenthesized]
  split
  · next inner hnamed => exact .single inner h hnamed rfl fun _ => rfl
  · exact form_keep (by rw [h]; decide)

theorem form_member {t : Tree} (h : t.kind = .memberExpression) : Form t (member t) := by
  rw [member]
  split
  · next object property hobject hproperty =>
    exact .member object property h hobject hproperty rfl fun _ => rfl
  · exact form_keep (by rw [h]; decide)

/-- The plan of a call: the callee and what the argument list names, if both are there, and like any other node
otherwise. -/
theorem form_call {t : Tree} (h : t.kind = .callExpression) : Form t (call t) := by
  rw [call]
  split
  · next callee arguments hcallee harguments =>
    split
    · next hlist =>
      rw [beq_iff_eq] at hlist
      exact .call callee arguments h hcallee harguments hlist rfl fun _ _ => rfl
    · next hlist =>
      rw [beq_iff_eq] at hlist
      refine .keep rfl (fun _ => rfl) ?_
      intro _ callee' arguments' _ harguments'
      rw [harguments, Option.some.injEq] at harguments'
      rw [← harguments']
      exact hlist
  · next hnone =>
    refine .keep rfl (fun _ => rfl) ?_
    intro _ callee arguments hcallee harguments
    exact absurd harguments (hnone callee arguments hcallee)

theorem form_leaf {t : Tree} (node : Node)
    (hkind : t.kind ∈ [Kind.identifier, .thisKeyword, .superKeyword, .numberLiteral, .trueLiteral,
      .falseLiteral, .nullLiteral])
    (hnode : (∃ name, node = .identifier t.line name) ∨
      ∃ value, node = .literal t.line value ∧ value.isScalar = true) :
    Form t (leaf node) :=
  .leaf hkind rfl node hnode rfl

/-- **The plan of a node, by its form.** All that is said about plans follows from this. -/
theorem form_plan (t : Tree) : Form t (plan t) := by
  -- one case for each kind that has a plan of its own, in the order of the definition
  unfold plan
  split
  · next h => exact form_parenthesized h
  · next h => exact form_leaf _ (by rw [h]; decide) (Or.inl ⟨_, rfl⟩)
  · next h => exact form_leaf _ (by rw [h]; decide) (Or.inl ⟨_, rfl⟩)
  · next h => exact form_leaf _ (by rw [h]; decide) (Or.inl ⟨_, rfl⟩)
  · next h => exact form_member h
  · next h => exact form_call h
  · next h => exact .quoted (Or.inl h) rfl rfl
  · next h =>
    split
    · exact form_keep (by rw [h]; decide)
    · next hany =>
      refine .quoted (Or.inr ⟨h, ?_⟩) rfl rfl
      intro c hc hkind
      apply hany
      rw [List.any_eq_true]
      exact ⟨c, hc, by rw [hkind]; rfl⟩
  · next h => exact form_leaf _ (by rw [h]; decide) (Or.inr ⟨_, rfl, Value.isScalar_number _⟩)
  · next h => exact form_leaf _ (by rw [h]; decide) (Or.inr ⟨_, rfl, rfl⟩)
  · next h => exact form_leaf _ (by rw [h]; decide) (Or.inr ⟨_, rfl, rfl⟩)
  · next h => exact form_leaf _ (by rw [h]; decide) (Or.inr ⟨_, rfl, rfl⟩)
  · next hcall _ _ _ _ _ _ => exact form_keep hcall

/-- What a plan asks for is smaller than the node that is planned, all of it together. -/
theorem sizeAll_pending_lt (t : Tree) : Tree.sizeAll (plan t).pending < t.size := by
  have hpos := t.size_pos
  cases form_plan t with
  | keep hpending =>
    rw [hpending]
    exact t.sizeAll_named_lt
  | leaf _ hpending =>
    rw [hpending]
    exact hpos
  | quoted _ hpending =>
    rw [hpending]
    exact hpos
  | single inner _ hnamed hpending =>
    rw [hpending, ← hnamed]
    exact t.sizeAll_named_lt
  | member object _ _ hobject _ hpending =>
    have := Tree.size_le_sizeAll (Tree.child?_mem hobject)
    rw [hpending, Tree.size_eq, Tree.sizeAll, Tree.sizeAll]
    omega
  | call callee arguments _ hcallee harguments _ hpending =>
    -- two children with different roles are two children, so both together are smaller than the node
    have hroles : callee.label.role ≠ arguments.label.role := by
      rw [Tree.role_of_child? hcallee, Tree.role_of_child? harguments]
      decide
    have hboth := Tree.size_add_size_le (Tree.child?_mem hcallee) (Tree.child?_mem harguments) hroles
    have hnamed := arguments.sizeAll_named_lt
    rw [hpending, Tree.size_eq, Tree.sizeAll]
    omega

/-- What a plan asks for stands below the node that is planned. -/
theorem mem_preorder_of_mem_pending {t c s : Tree} (hc : c ∈ (plan t).pending)
    (hs : s ∈ c.preorder) : s ∈ t.preorder := by
  cases form_plan t with
  | keep hpending =>
    rw [hpending] at hc
    exact Tree.mem_preorder_of_mem_children (Tree.named_subset hc) hs
  | leaf _ hpending =>
    rw [hpending] at hc
    cases hc
  | quoted _ hpending =>
    rw [hpending] at hc
    cases hc
  | single inner _ hnamed hpending =>
    rw [hpending, ← hnamed] at hc
    exact Tree.mem_preorder_of_mem_children (Tree.named_subset hc) hs
  | member object _ _ hobject _ hpending =>
    rw [hpending, List.mem_singleton] at hc
    rw [hc] at hs
    exact Tree.mem_preorder_of_mem_children (Tree.child?_mem hobject) hs
  | call callee arguments _ hcallee harguments _ hpending =>
    rw [hpending] at hc
    rcases List.mem_cons.mp hc with rfl | hc
    · exact Tree.mem_preorder_of_mem_children (Tree.child?_mem hcallee) hs
    -- what the argument list names stands two levels below
    · have hbelow := Tree.mem_preorder_of_mem_children (Tree.named_subset hc) hs
      exact Tree.mem_preorder_of_mem_children (Tree.child?_mem harguments) hbelow

/-- What a plan makes of as many nodes as it asked for. -/
inductive Built (t : Tree) : List Node → Except Escape.Failure Node → Prop
  | other (parts : List Node) : Built t parts (.ok (.other t.line t.kind parts))
  | name (name : Text) : Built t [] (.ok (.identifier t.line name))
  | value (value : Value) (hscalar : value.isScalar = true) : Built t [] (.ok (.literal t.line value))
  | quoted (hkind : t.kind = .stringLiteral ∨ t.kind = .templateString) :
      Built t [] ((Escape.unescape (Text.ofChars (t.spelling.drop 1).dropLast)).map
        (.literal t.line ∘ .text))
  | single (node : Node) : Built t [node] (.ok node)
  | member (node : Node) (property : Text) : Built t [node] (.ok (.member t.line node property))
  | call (node : Node) (nodes : List Node) (comments : List Text) :
      Built t (node :: nodes) (.ok (.call t.line node nodes comments))

/-- What a plan builds from as many nodes as it asked for. -/
theorem built {t : Tree} {parts : List Node} (h : (plan t).pending.length = parts.length) :
    Built t parts ((plan t).build parts) := by
  cases form_plan t with
  | keep _ hbuild =>
    rw [hbuild]
    exact .other parts
  | leaf _ hpending node hnode hbuild =>
    rw [hpending] at h
    rw [List.length_eq_zero_iff.mp h.symm, hbuild]
    rcases hnode with ⟨name, rfl⟩ | ⟨value, rfl, hscalar⟩
    · exact .name name
    · exact .value value hscalar
  | quoted hkind hpending hbuild =>
    rw [hpending] at h
    rw [List.length_eq_zero_iff.mp h.symm, hbuild]
    exact .quoted (hkind.imp_right And.left)
  | single inner _ _ hpending hbuild =>
    rw [hpending] at h
    obtain ⟨node, rfl⟩ := List.length_eq_one_iff.mp h.symm
    rw [hbuild]
    exact .single node
  | member object property _ _ _ hpending hbuild =>
    rw [hpending] at h
    obtain ⟨node, rfl⟩ := List.length_eq_one_iff.mp h.symm
    rw [hbuild]
    exact .member node _
  | call callee arguments _ _ _ _ hpending hbuild =>
    rw [hpending, List.length_cons] at h
    cases parts with
    | nil => cases h
    | cons node nodes =>
      rw [hbuild]
      exact .call node nodes _

theorem size_lt_of_mem_pending {t c : Tree} (h : c ∈ (plan t).pending) : c.size < t.size :=
  Nat.lt_of_le_of_lt (Tree.size_le_sizeAll h) (sizeAll_pending_lt t)

/-- Hands what came of a plan to the plan below it. -/
def resume (fuel : Nat) (stack : List Frame) (result : Except Escape.Failure Node) :
    Except Escape.Failure Node := do
  let node ← result
  match stack with
  | [] => return node
  | parent :: stack => carryOut fuel ({ parent with done := node :: parent.done } :: stack)

theorem resume_nil (fuel : Nat) (result : Except Escape.Failure Node) :
    resume fuel [] result = result := by
  cases result <;> rfl

/-- **Step.** A plan that asks for a tree waits for the plan of that tree. -/
theorem carryOut_cons (fuel : Nat) (t : Tree) (rest : List Tree)
    (build : List Node → Except Escape.Failure Node) (done : List Node) (stack : List Frame) :
    carryOut (fuel + 1) ({ pending := t :: rest, build, done } :: stack) =
      carryOut fuel ((plan t).start :: { pending := rest, build, done } :: stack) :=
  rfl

/-- **Step.** A plan that asks for no more builds its node. -/
theorem carryOut_nil (fuel : Nat) (build : List Node → Except Escape.Failure Node)
    (done : List Node) (stack : List Frame) :
    carryOut (fuel + 1) ({ pending := [], build, done } :: stack) =
      resume fuel stack (build done.reverse) :=
  rfl

/-- The machine carries out the plan of a tree: after some steps the node of the tree is handed on. -/
def Lowers (t : Tree) : Prop :=
  ∃ steps, steps + 1 ≤ 2 * t.size ∧
    ∀ fuel stack, carryOut (steps + fuel) ((plan t).start :: stack) = resume fuel stack (lower t)

/-- **Run of one plan.** A plan is carried out child by child; the nodes done so far wait in reverse. -/
theorem carryOut_pending {pending : List Tree} (h : ∀ t ∈ pending, Lowers t) :
    ∃ steps, steps ≤ 2 * Tree.sizeAll pending ∧ ∀ fuel build done stack,
      carryOut (steps + 1 + fuel) ({ pending, build, done } :: stack) =
        resume fuel stack (pending.mapM lower >>= fun nodes => build (done.reverse ++ nodes)) := by
  induction pending with
  | nil =>
    refine ⟨0, Nat.le_refl _, ?_⟩
    intro fuel build done stack
    have hfuel : 0 + 1 + fuel = fuel + 1 := by omega
    rw [hfuel, carryOut_nil, List.mapM_nil, pure_bind, List.append_nil]
  | cons t rest ih =>
    obtain ⟨⟨first, hfirst, hrun⟩, hrest⟩ := List.forall_mem_cons.mp h
    obtain ⟨others, hothers, hruns⟩ := ih hrest
    refine ⟨first + 1 + others, ?_, ?_⟩
    · rw [Tree.sizeAll]
      omega
    intro fuel build done stack
    have hfuel : first + 1 + others + 1 + fuel = (first + (others + 1 + fuel)) + 1 := by omega
    rw [hfuel, carryOut_cons, hrun, List.mapM_cons]
    -- the first child ends the run with its failure, or joins the nodes that are done
    cases lower t with
    | error failure => rfl
    | ok node =>
      have hnext := hruns fuel build (node :: done) stack
      rw [List.reverse_cons] at hnext
      show carryOut (others + 1 + fuel) ({ pending := rest, build, done := node :: done } :: stack) = _
      rw [hnext]
      cases rest.mapM lower with
      | error failure => rfl
      | ok nodes =>
        show resume fuel stack (build (done.reverse ++ [node] ++ nodes)) =
          resume fuel stack (build (done.reverse ++ node :: nodes))
        rw [List.append_assoc, List.singleton_append]

/-- What the machine computes for a tree, if it carries out the plans of all nodes asked for. -/
private theorem lower_eq_of_lowers {t : Tree} {steps : Nat}
    (hsteps : steps ≤ 2 * Tree.sizeAll (plan t).pending)
    (hrun : ∀ fuel build done stack,
      carryOut (steps + 1 + fuel) ({ pending := (plan t).pending, build, done } :: stack) =
        resume fuel stack ((plan t).pending.mapM lower >>= fun nodes => build (done.reverse ++ nodes))) :
    lower t = (plan t).pending.mapM lower >>= (plan t).build := by
  have hsize := sizeAll_pending_lt t
  have hfuel : 2 * t.size = steps + 1 + (2 * t.size - (steps + 1)) := by omega
  have hwhole := hrun (2 * t.size - (steps + 1)) (plan t).build [] []
  rw [← hfuel, resume_nil] at hwhole
  exact hwhole

/-- **Every tree is lowered** by carrying out its plan, in at most twice as many steps as it has nodes. -/
theorem lowers (t : Tree) : Lowers t := by
  -- the nodes that a plan asks for are smaller
  induction hn : t.size using Nat.strongRecOn generalizing t with
  | ind n ih =>
    subst hn
    have hchildren : ∀ c ∈ (plan t).pending, Lowers c :=
      fun c hc => ih c.size (size_lt_of_mem_pending hc) c rfl
    obtain ⟨steps, hsteps, hrun⟩ := carryOut_pending hchildren
    have hsize := sizeAll_pending_lt t
    refine ⟨steps + 1, by omega, ?_⟩
    intro fuel stack
    rw [lower_eq_of_lowers hsteps hrun]
    exact hrun fuel (plan t).build [] stack

/-- **Lowering is recursion.** The kept tree of a node is what its plan builds from the kept trees of the
nodes that it asks for. -/
theorem lower_eq (t : Tree) : lower t = (plan t).pending.mapM lower >>= (plan t).build := by
  obtain ⟨steps, hsteps, hrun⟩ := carryOut_pending fun c (_ : c ∈ (plan t).pending) => lowers c
  exact lower_eq_of_lowers hsteps hrun

/-- Trees that can all be lowered, each with its node. -/
theorem forall₂_of_mapM_ok {ts : List Tree} {ns : List Node} (h : ts.mapM lower = .ok ns) :
    List.Forall₂ (fun t n => lower t = .ok n) ts ns := by
  induction ts generalizing ns with
  | nil =>
    rw [List.mapM_nil] at h
    cases h
    exact .nil
  | cons t ts ih =>
    rw [List.mapM_cons] at h
    cases ht : lower t with
    | error failure =>
      rw [ht] at h
      cases h
    | ok n =>
      rw [ht] at h
      cases hts : ts.mapM lower with
      | error failure =>
        rw [hts] at h
        cases h
      | ok others =>
        rw [hts] at h
        cases h
        exact .cons ht (ih hts)

theorem mapM_of_forall₂ {ts : List Tree} {ns : List Node}
    (h : List.Forall₂ (fun t n => lower t = .ok n) ts ns) : ts.mapM lower = .ok ns := by
  induction h with
  | nil => exact List.mapM_nil
  | cons ht _ ih =>
    rw [List.mapM_cons, ht, ih]
    rfl

/-- Where one of the trees cannot be lowered, those before the first such tree can. -/
theorem exists_of_mapM_error {ts : List Tree} {failure : Escape.Failure}
    (h : ts.mapM lower = .error failure) :
    ∃ before t after nodes, ts = before ++ t :: after ∧ before.mapM lower = .ok nodes ∧
      lower t = .error failure := by
  induction ts with
  | nil =>
    rw [List.mapM_nil] at h
    cases h
  | cons t ts ih =>
    rw [List.mapM_cons] at h
    cases ht : lower t with
    -- the first tree fails, or it is one of those before the failure
    | error other =>
      rw [ht] at h
      cases h
      exact ⟨[], t, ts, [], rfl, List.mapM_nil, ht⟩
    | ok node =>
      rw [ht] at h
      cases hts : ts.mapM lower with
      | ok others =>
        rw [hts] at h
        cases h
      | error other =>
        rw [hts] at h
        cases h
        obtain ⟨before, u, after, nodes, rfl, hnodes, hu⟩ := ih hts
        refine ⟨t :: before, u, after, node :: nodes, rfl, ?_, hu⟩
        rw [List.mapM_cons, ht, hnodes]
        rfl

/-- **Induction along lowering.** What holds of the node that a plan builds, if it holds of the nodes
that the plan asks for, holds of every kept tree. -/
theorem lower_induction {motive : Tree → Node → Prop}
    (step : ∀ t parts n,
      List.Forall₂ (fun c m => lower c = .ok m ∧ motive c m) (plan t).pending parts →
      (plan t).build parts = .ok n → motive t n)
    {t : Tree} {n : Node} (h : lower t = .ok n) : motive t n := by
  -- the nodes that a plan asks for are smaller
  induction hsize : t.size using Nat.strongRecOn generalizing t n with
  | ind size ih =>
    subst hsize
    rw [lower_eq] at h
    cases hparts : (plan t).pending.mapM lower with
    | error failure =>
      rw [hparts] at h
      cases h
    | ok parts =>
      rw [hparts] at h
      have hbelow : List.Forall₂ (fun c m => c.size < t.size ∧ lower c = .ok m) (plan t).pending parts :=
        (List.forall₂_and_left _ _).mpr ⟨fun c => size_lt_of_mem_pending, forall₂_of_mapM_ok hparts⟩
      refine step t parts n (hbelow.imp ?_) h
      rintro c m ⟨hlt, hm⟩
      exact ⟨hm, ih c.size hlt hm rfl⟩

end Lower

end Script

end Phrasebook
