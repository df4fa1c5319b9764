import Phrasebook.Script.Tree

/-!
# Phrasebook — patterns

What stands left of an assignment or between the parentheses of an arrow function is read as an
expression first, because only what follows tells the difference. Here such a tree is turned into
the pattern with the same tokens: an array literal becomes an array pattern, a spread element a rest
pattern, an assignment a pattern with a default, and so on.

A property with a default value, such as `a = 1` in braces, is no expression at all. It is read as
an `error` node, which becomes a regular part of an object pattern.
-/

namespace Phrasebook.Script.Tree

/-- Kinds that are assigned to as they are. -/
def isPlace : Kind → Bool
  | .identifier | .undefinedKeyword | .memberExpression | .subscriptExpression => true
  | _ => false

mutual

/-- The pattern that an expression stands for when it is assigned to. -/
def toPattern? : Tree → Option Tree
  | .node l cs =>
    if isPlace l.kind then some (.node l cs)
    else
      match l.kind with
      | .arrayLiteral => (toItems? cs).map (.node { l with kind := .arrayPattern })
      | .objectLiteral => (toProperties? cs).map (.node { l with kind := .objectPattern })
      | _ => none

/-- The pattern of an item of an array, of a parameter or of a property's value: it may have a
default and may take the rest. -/
def toItem? : Tree → Option Tree
  | .node l cs =>
    if isPlace l.kind then some (.node l cs)
    else
      match l.kind with
      | .token | .comment | .htmlComment => some (.node l cs)
      | .arrayLiteral => (toItems? cs).map (.node { l with kind := .arrayPattern })
      | .objectLiteral => (toProperties? cs).map (.node { l with kind := .objectPattern })
      | .assignmentExpression =>
        if cs.head?.any (·.kind == .parenthesizedExpression) then none
        else some (.node { l with kind := .assignmentPattern } cs)
      | .spreadElement => (toRest? cs).map (.node { l with kind := .restPattern })
      | _ => none

/-- The patterns of the items of an array, or of parameters. -/
def toItems? : List Tree → Option (List Tree)
  | [] => some []
  | t :: ts => do
    let item ← toItem? t
    let items ← toItems? ts
    return item :: items

/-- The parts of a spread element as those of a rest pattern, which has no default. -/
def toRest? : List Tree → Option (List Tree)
  | [] => some []
  | .node l cs :: ts => do
    let part ←
      match l.kind with
      | .token | .comment | .htmlComment => some (.node l cs)
      | _ => toPattern? (.node l cs)
    let parts ← toRest? ts
    return part :: parts

/-- The patterns of the properties of an object. -/
def toProperties? : List Tree → Option (List Tree)
  | [] => some []
  | .node l cs :: ts => do
    let property ←
      match l.kind with
      | .token | .comment | .htmlComment => some (.node l cs)
      | .shorthandPropertyIdentifier =>
        some (.node { l with kind := .shorthandPropertyIdentifierPattern } cs)
      | .error => some (.node { l with kind := .objectAssignmentPattern } cs)
      | .spreadElement => (toRest? cs).map (.node { l with kind := .restPattern })
      | .pair =>
        match cs with
        | key :: value => (toItems? value).map fun v => .node { l with kind := .pairPattern } (key :: v)
        | [] => none
      | _ => none
    let properties ← toProperties? ts
    return property :: properties

end

/-- Whether items are separated by single commas, with one allowed at the end if `trailing`. -/
def separated (trailing : Bool) : Bool → List Tree → Bool
  | expectsItem, [] => !expectsItem || trailing
  | expectsItem, t :: ts =>
    if t.kind.isExtra then separated trailing expectsItem ts
    else if t.kind.isNamed then expectsItem && separated trailing false ts
    else !expectsItem && separated trailing true ts

/-- The formal parameters that a parenthesised list of items stands for. -/
def toParameters? (line : Nat) (opening items closing : List Tree) : Option Tree :=
  if separated true true items then
    (toItems? items).map fun ps => .node { kind := .formalParameters, line } (opening ++ ps ++ closing)
  else none

/-- What a parenthesised list of items stands for as an expression: one expression, or a sequence,
with nothing left out and nothing spread. -/
def toParenthesized? (line : Nat) (opening items closing : List Tree) : Option Tree :=
  let expressions := items.filter fun t => t.kind.isNamed && !t.kind.isExtra
  if expressions.isEmpty || !separated false true items ||
      expressions.any (·.kind == .spreadElement) then none
  else
    let inside :=
      match expressions with
      | first :: _ :: _ =>
        let before := items.takeWhile (·.kind.isExtra)
        let after := (items.reverse.takeWhile (·.kind.isExtra)).reverse
        let middle := (items.drop before.length).take (items.length - before.length - after.length)
        before ++ [.node { kind := .sequenceExpression, line := first.line } middle] ++ after
      | _ => items
    some (.node { kind := .parenthesizedExpression, line } (opening ++ inside ++ closing))

/-- What an expression left of `=` stands for. -/
def toAssigned? (t : Tree) : Option Tree :=
  if t.kind == .parenthesizedExpression then some t else toPattern? t

end Phrasebook.Script.Tree
