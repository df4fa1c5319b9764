import Phrasebook.Script.Kind
import Phrasebook.Value

/-!
# Phrasebook — the kept tree

Of the concrete syntax tree only what the search for messages needs is kept: names, member accesses,
literals with their values, and calls with the translator comments before their first argument.
Every other construct keeps its kind and its parts.

* `Node.walk` — all nodes of a tree, parents before their children, read off an explicit stack;
* `Node.outline` — the same with the depth of every node.
-/

namespace Phrasebook.Script

/-- A node of the kept tree. -/
inductive Node where
  | identifier (line : Nat) (name : Text)
  | member (line : Nat) (object : Node) (property : Text)
  | literal (line : Nat) (value : Value)
  | call (line : Nat) (callee : Node) (arguments : List Node) (comments : List Text)
  | other (line : Nat) (kind : Kind) (parts : List Node)

namespace Node

/-- The line on which a node starts. -/
def line : Node → Nat
  | .identifier l _ => l
  | .member l _ _ => l
  | .literal l _ => l
  | .call l _ _ _ => l
  | .other l _ _ => l

/-- The children of a node, in source order. -/
def children : Node → List Node
  | .identifier _ _ => []
  | .member _ object _ => [object]
  | .literal _ _ => []
  | .call _ callee arguments _ => callee :: arguments
  | .other _ _ parts => parts

mutual

/-- The number of nodes of a tree. -/
def size : Node → Nat
  | .identifier _ _ => 1
  | .member _ object _ => object.size + 1
  | .literal _ _ => 1
  | .call _ callee arguments _ => callee.size + sizeAll arguments + 1
  | .other _ _ parts => sizeAll parts + 1

/-- The number of nodes of a list of trees. -/
def sizeAll : List Node → Nat
  | [] => 0
  | n :: ns => n.size + sizeAll ns

end

/-- The nodes below those on a stack. The fuel bounds their number. -/
def walkFrom : Nat → List Node → List Node
  | 0, _ => []
  | _, [] => []
  | fuel + 1, n :: stack => n :: walkFrom fuel (n.children ++ stack)

/-- All nodes of a tree, parents before their children. -/
def walk (root : Node) : List Node := walkFrom root.size [root]

/-- The nodes below those on a stack, each with its depth. -/
def outlineFrom : Nat → List (Nat × Node) → List (Nat × Node)
  | 0, _ => []
  | _, [] => []
  | fuel + 1, (depth, n) :: stack =>
    (depth, n) :: outlineFrom fuel (n.children.map ((depth + 1, ·)) ++ stack)

/-- All nodes of a tree with their depth, parents before their children. -/
def outline (root : Node) : List (Nat × Node) := outlineFrom root.size [(0, root)]

end Node

end Phrasebook.Script
