import Phrasebook.Message
import Phrasebook.Script.Node

/-!
# Phrasebook — marked calls

A *marker* is a dotted name such as `i18n.gettext`. A call is marked if its callee is a dotted name
that starts and ends like a marker and is at least as long: names in the middle do not matter.

* `Marker.ofText` — the segments of a marker;
* `Marker.segments?` — the segments of a callee;
* `Marker.marks` — whether a call is marked;
* `Marker.messages` — the messages of a script, in the order of their calls.
-/

namespace Phrasebook

/-- The segments of a dotted name. -/
abbrev Marker := List Text

namespace Marker

open Script (Node)

/-- The segments of a marker. -/
def ofText (t : Text) : Marker := Text.splitOn '.' t

/-- The segments of a callee in front of those already read; none if it is no dotted name. -/
def segmentsFrom? : Node → List Text → Option (List Text)
  | .identifier _ name, read => some (name :: read)
  | .member _ object property, read => segmentsFrom? object (property :: read)
  | .literal _ _, _ => none
  | .call _ _ _ _, _ => none
  | .other _ _ _, _ => none

/-- The segments of a callee that is a dotted name. -/
def segments? (callee : Node) : Option (List Text) := segmentsFrom? callee []

/-- Whether a dotted name matches a marker. -/
def covers (marker : Marker) (segments : List Text) : Bool :=
  segments.head? == marker.head? && segments.getLast? == marker.getLast? &&
    marker.length ≤ segments.length

/-- Whether a node is a marked call. A call without arguments is none. -/
def marks (markers : List Marker) : Node → Bool
  | .call _ callee arguments _ =>
    if arguments.isEmpty then false
    else
      match segments? callee with
      | some segments => markers.any (·.covers segments)
      | none => false
  | _ => false

/-- The value of a literal. -/
def literal? : Node → Option Value
  | .literal _ value => some value
  | _ => none

/-- The value of an argument; null if it is no literal. -/
def value (n : Node) : Value := (literal? n).getD .null

/-- The text of an argument that is a literal text. -/
def text? (n : Node) : Option Text := (literal? n).bind Value.text?

/-- What arguments give a translator: the first one, and the second one if it is a text. -/
def payload : List Node → Value
  | [] => .null
  | [first] => value first
  | first :: second :: _ =>
    match text? second with
    | some plural => .tuple [value first, .text plural]
    | none => value first

/-- The comment for a place in a source. -/
def location (origin : Text) (line : Nat) : Text :=
  ("#: " : Text) ++ origin ++ (":" : Text) ++ Text.ofNat line

/-- The message of a marked call. -/
def message? (origin : Text) (markers : List Marker) (n : Node) : Option Message :=
  match n with
  | .call line _ arguments comments =>
    if marks markers n then
      some {
        location := location origin line
        comments := comments.map (("#. " : Text) ++ ·)
        payload := payload arguments
        origin }
    else none
  | _ => none

/-- The messages of a script. -/
def messages (origin : Text) (markers : List Marker) (root : Node) : List Message :=
  root.walk.filterMap (message? origin markers)

end Marker

end Phrasebook
