import Phrasebook.Script.Kind

/-!
# Phrasebook — concrete syntax trees

The tree of a script holds a node for every construct, token and comment of its text. A node knows
the line on which it starts; names, literals and comments also keep their spelling. Where a
construct has parts that are looked up by their part in it, the parts carry a *role*.

A text outside the grammar has a tree too: it holds an `error` node, or a *missing* one where a
token had to be supplied.

* `Tree.child?` — the child with a role;
* `Tree.hasError`, `Tree.firstErrorLine` — whether, and where first, a tree shows an error.
-/

namespace Phrasebook.Script

/-- The part that a node plays in the construct around it. -/
inductive Role where
  | function
  | arguments
  | object
  | property
deriving DecidableEq

/-- What is known of a node apart from its children. -/
structure Label where
  kind : Kind
  /-- The line of the first token, counted from one. -/
  line : Nat
  /-- The source text, kept for names, literals, comments and tokens. -/
  spelling : List Char := []
  role : Option Role := none
  /-- Whether the node was supplied where the text lacks it. -/
  missing : Bool := false

/-- A concrete syntax tree. -/
inductive Tree where
  | node (label : Label) (children : List Tree)

namespace Tree

/-- The label of the root. -/
def label : Tree → Label
  | .node l _ => l

/-- The children of the root, in source order. -/
def children : Tree → List Tree
  | .node _ cs => cs

/-- The kind of the root. -/
def kind (t : Tree) : Kind := t.label.kind

/-- The line on which the tree starts. -/
def line (t : Tree) : Nat := t.label.line

/-- The spelling of the root. -/
def spelling (t : Tree) : List Char := t.label.spelling

/-- A tree whose root plays the given part. A comment plays none. -/
def withRole (role : Role) : Tree → Tree
  | .node l cs => .node { l with role := if l.kind.isComment then none else some role } cs

/-- A tree whose root has another kind. -/
def withKind (kind : Kind) : Tree → Tree
  | .node l cs => .node { l with kind } cs

/-- The first child that plays the given part. -/
def child? (t : Tree) (role : Role) : Option Tree :=
  t.children.find? (·.label.role == some role)

/-- The named children that are no comments. -/
def named (t : Tree) : List Tree :=
  t.children.filter fun c => c.kind.isNamed && !c.kind.isComment

mutual

/-- The number of nodes of a tree. -/
def size : Tree → Nat
  | .node _ cs => sizeAll cs + 1

/-- The number of nodes of a list of trees. -/
def sizeAll : List Tree → Nat
  | [] => 0
  | t :: ts => t.size + sizeAll ts

end

/-- A node that marks an error. -/
def isError (t : Tree) : Bool := t.kind == .error || t.label.missing

/-- The line of the first error among the trees on a stack, in the order in which a reader of the
text meets their nodes. The fuel bounds the number of nodes looked at. -/
def firstErrorFrom : Nat → List Tree → Option Nat
  | 0, _ => none
  | _, [] => none
  | fuel + 1, t :: stack =>
    if t.isError then some t.line else firstErrorFrom fuel (t.children ++ stack)

/-- The line of the first error of a tree, if it has one. -/
def firstError? (t : Tree) : Option Nat := firstErrorFrom t.size [t]

/-- Whether a tree shows an error anywhere. -/
def hasError (t : Tree) : Bool := t.firstError?.isSome

/-- The line of the first error, or that of the root of a tree without one. -/
def firstErrorLine (t : Tree) : Nat := t.firstError?.getD t.line

end Tree

end Phrasebook.Script
