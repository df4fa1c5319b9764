import Phrasebook.Message
import Phrasebook.Text.Blank

/-!
# Phrasebook — placeholders

A placeholder is a name in braces. The author may add a *note* for translators behind a `#`: the note
is moved to the comments, and the placeholder keeps its name without blanks around it.

A text is cut into parts from left to right. A placeholder starts at a brace that has a code point
other than a closing brace behind it and a closing brace later; it reaches to the first one.

* `Placeholder.parts` — the parts of a text;
* `Placeholder.decode` — the text with plain placeholders, and the comments with the notes appended;
* `Message.decoded` — the same for the payload of a message.
-/

namespace Phrasebook

namespace Placeholder

/-- A part of a text. -/
inductive Part where
  | plain (c : CodePoint)
  /-- A placeholder, with what stands between its braces. -/
  | placeholder (inside : Text)
deriving DecidableEq

/-- What stands between the braces of a placeholder, given the text behind the opening one. -/
def inside? (t : Text) : Option Text :=
  let inside := t.takeWhile (!·.is '}')
  if inside.isEmpty || inside.length == t.length then none else some inside

/-- The parts of a text after the next `taken` code points, which belong to a placeholder. -/
def partsFrom : Nat → Text → List Part
  | _, [] => []
  | taken + 1, _ :: rest => partsFrom taken rest
  | 0, c :: rest =>
    if c.is '{' then
      match inside? rest with
      | some inside => .placeholder inside :: partsFrom (inside.length + 1) rest
      | none => .plain c :: partsFrom 0 rest
    else .plain c :: partsFrom 0 rest

/-- The parts of a text. -/
def parts (t : Text) : List Part := partsFrom 0 t

/-- The name of a placeholder. -/
def name (inside : Text) : Text := Text.strip (inside.takeWhile (!·.is '#'))

/-- The note of a placeholder, empty if it has none. -/
def note (inside : Text) : Text := Text.strip ((inside.dropWhile (!·.is '#')).drop 1)

/-- A part without its note. -/
def Part.text : Part → Text
  | .plain c => [c]
  | .placeholder inside => [CodePoint.ofChar '{'] ++ name inside ++ [CodePoint.ofChar '}']

/-- The comment for the note of a part, if it has one. -/
def Part.comment? : Part → Option Text
  | .plain _ => none
  | .placeholder inside =>
    if (note inside).isEmpty then none
    else some (("#. " : Text) ++ name inside ++ (" - " : Text) ++ note inside)

/-- A text with plain placeholders, and the comments with its notes appended. -/
def decode (t : Text) (comments : List Text) : Text × List Text :=
  ((parts t).flatMap Part.text, comments ++ (parts t).filterMap Part.comment?)

/-- The texts of values, if all are texts. -/
def texts? (values : List Value) : Option (List Text) := values.mapM Value.text?

/-- Decodes texts one after the other, with one list of comments. -/
def decodeAll : List Text → List Text → List Text × List Text
  | [], comments => ([], comments)
  | t :: ts, comments =>
    let (first, comments) := decode t comments
    let (others, comments) := decodeAll ts comments
    (first :: others, comments)

end Placeholder

/-- A message with plain placeholders. A payload that is no text and no tuple of texts stays. -/
def Message.decoded (m : Message) : Message :=
  match m.payload with
  | .text t =>
    let (t, comments) := Placeholder.decode t m.comments
    { m with comments, payload := .text t }
  | .tuple items =>
    match Placeholder.texts? items with
    | some ts =>
      let (ts, comments) := Placeholder.decodeAll ts m.comments
      { m with comments, payload := .tuple (ts.map .text) }
    | none => m
  | _ => m

end Phrasebook
