import Phrasebook.Script.Comment
import Phrasebook.Script.Escape
import Phrasebook.Script.Node
import Phrasebook.Script.Tree

/-!
# Phrasebook — from the concrete tree to the kept tree

For every node of the concrete tree there is a *plan*: which nodes below it are needed first, and how
the kept node is built from theirs. Parentheses around a single expression leave no trace. Plans are
carried out on an explicit stack, children before their parents, so that no tree is too deep.

* `Lower.plan` — the plan of a node;
* `Lower.lower` — the kept tree of a concrete tree. It fails only where a string literal has no
  value.
-/

namespace Phrasebook.Script.Lower

/-- How a node becomes a kept node. -/
structure Plan where
  /-- The nodes that are needed first. -/
  pending : List Tree
  /-- Builds the kept node from theirs, in the same order. -/
  build : List Node → Except Escape.Failure Node

/-- The comments between the opening parenthesis of an argument list and its first argument. -/
def leadingComments : List Tree → List Text
  | [] => []
  | t :: ts =>
    if t.kind.isComment then Comment.lines (Text.ofChars t.spelling) ++ leadingComments ts
    else if t.kind.isNamed then []
    else leadingComments ts

/-- A plan for a node that needs no others. -/
def leaf (node : Node) : Plan := { pending := [], build := fun _ => .ok node }

/-- A plan for a literal whose value is that of the text between its quotes. -/
def quoted (line : Nat) (spelling : List Char) : Plan where
  pending := []
  build _ := (Escape.unescape (Text.ofChars (spelling.drop 1).dropLast)).map (.literal line ∘ .text)

/-- A plan that keeps the kind of a node and its named children. -/
def keep (t : Tree) : Plan where
  pending := t.named
  build parts := .ok (.other t.line t.kind parts)

/-- The plan of a node in parentheses. -/
def parenthesized (t : Tree) : Plan :=
  match t.named with
  | [inner] =>
    { pending := [inner]
      build := fun
        | [node] => .ok node
        | parts => .ok (.other t.line t.kind parts) }
  | _ => keep t

/-- The plan of a member access. -/
def member (t : Tree) : Plan :=
  match t.child? .object, t.child? .property with
  | some object, some property =>
    { pending := [object]
      build := fun
        | [node] => .ok (.member t.line node (Text.ofChars property.spelling))
        | parts => .ok (.other t.line t.kind parts) }
  | _, _ => keep t

/-- The plan of a call. A template behind a function is no argument list. -/
def call (t : Tree) : Plan :=
  match t.child? .function, t.child? .arguments with
  | some callee, some arguments =>
    if arguments.kind == .arguments then
      { pending := callee :: arguments.named
        build := fun
          | node :: nodes => .ok (.call t.line node nodes (leadingComments arguments.children))
          | [] => .ok (.other t.line t.kind []) }
    else keep t
  | _, _ => keep t

/-- The plan of a node. -/
def plan (t : Tree) : Plan :=
  match t.kind with
  | .parenthesizedExpression => parenthesized t
  | .identifier | .thisKeyword | .superKeyword =>
    leaf (.identifier t.line (Text.ofChars t.spelling))
  | .memberExpression => member t
  | .callExpression => call t
  | .stringLiteral => quoted t.line t.spelling
  | .templateString =>
    if t.children.any (·.kind == .templateSubstitution) then keep t else quoted t.line t.spelling
  | .numberLiteral => leaf (.literal t.line (Value.number (Text.ofChars t.spelling)))
  | .trueLiteral => leaf (.literal t.line (.bool true))
  | .falseLiteral => leaf (.literal t.line (.bool false))
  | .nullLiteral => leaf (.literal t.line .null)
  | _ => keep t

/-- A plan that is being carried out: what is still needed, and what is done, the last one first. -/
structure Frame where
  pending : List Tree
  build : List Node → Except Escape.Failure Node
  done : List Node

/-- A plan of which nothing is done yet. -/
def Plan.start (p : Plan) : Frame := { pending := p.pending, build := p.build, done := [] }

/-- Carries out the plans on a stack. The fuel bounds the number of steps; two for each node of the
tree suffice. -/
def carryOut : Nat → List Frame → Except Escape.Failure Node
  | 0, _ => .ok (.other 0 .error [])
  | _, [] => .ok (.other 0 .error [])
  | fuel + 1, frame :: stack =>
    match frame.pending with
    | t :: rest => carryOut fuel ((plan t).start :: { frame with pending := rest } :: stack)
    | [] => do
      let node ← frame.build frame.done.reverse
      match stack with
      | [] => return node
      | parent :: stack => carryOut fuel ({ parent with done := node :: parent.done } :: stack)

/-- The kept tree of a concrete tree. -/
def lower (root : Tree) : Except Escape.Failure Node :=
  carryOut (2 * root.size) [(plan root).start]

end Phrasebook.Script.Lower
