import Phrasebook.Value

/-!
# Phrasebook — messages

A message is one marked call: where it stands, what its author tells translators, and its payload.
A payload is *valid* if it is a text, or a pair of texts for singular and plural.

* `Message` — a message;
* `Value.isPlural`, `Value.identity?` — valid payloads and the text by which messages are merged.
-/

namespace Phrasebook

/-- A marked call. -/
structure Message where
  /-- The comment that says where the call stands. -/
  location : Text
  /-- The comments for translators. -/
  comments : List Text
  /-- What is to be translated. -/
  payload : Value
  /-- The path of the source. -/
  origin : Text

/-- The two texts of a plural payload. -/
def Value.plural? : Value → Option (Text × Text)
  | .tuple [.text singular, .text plural] => some (singular, plural)
  | _ => none

/-- Whether a payload is a pair of texts. -/
def Value.isPlural (payload : Value) : Bool := payload.plural?.isSome

/-- The text by which messages are merged: the payload itself, or the texts of a pair with a bar
between them. Other payloads have none. -/
def Value.identity? (payload : Value) : Option Text :=
  match payload with
  | .text t => some t
  | _ => payload.plural?.map fun (singular, plural) => singular ++ ("|" : Text) ++ plural

end Phrasebook
