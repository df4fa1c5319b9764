import Phrasebook.Error
import Phrasebook.Message
import Phrasebook.Text.Units

/-!
# Phrasebook — catalogs

A catalog merges messages by key and keeps the order in which the keys were first seen. The first
message of a key gives the payload and the origin; the later ones add their comments, and then the
comments are sorted in descending order of their code units.

Messages without a valid payload have their place as key, so that each is reported.

* `Key`, `Message.key` — keys, and the key of a message;
* `Text.sortDescending` — the stable sort of comments;
* `Catalog.add` — a catalog with one more message;
* `Catalog.get?`, `Catalog.get`, `Catalog.contains` — look-up by key.
-/

namespace Phrasebook

/-- What messages are merged by. -/
inductive Key where
  /-- The identity of a valid payload. -/
  | text (t : Text)
  /-- The place of a message with another payload. -/
  | place (origin location : Text)
deriving DecidableEq

/-- The key of a message. -/
def Message.key (m : Message) : Key :=
  match m.payload.identity? with
  | some t => .text t
  | none => .place m.origin m.location

/-- The comments of a message, its location first. -/
def Message.notes (m : Message) : List Text := m.location :: m.comments

namespace Key

/-- A key as a value. -/
def toValue : Key → Value
  | .text t => .text t
  | .place origin location => .tuple [.text origin, .text location]

/-- The key that a value stands for. -/
def ofValue? (v : Value) : Option Key :=
  match v with
  | .text t => some (.text t)
  | _ => v.plural?.map fun (origin, location) => .place origin location

end Key

/-- Puts a text before the first one that does not come after it in code units. -/
def Text.insertDescending (t : Text) : List Text → List Text
  | [] => [t]
  | u :: us => if u.unitsLe t then t :: u :: us else u :: insertDescending t us

/-- Sorts texts in descending order of their code units; texts with the same ones keep their order. -/
def Text.sortDescending : List Text → List Text
  | [] => []
  | t :: ts => insertDescending t (sortDescending ts)

/-- What a catalog holds for a key. -/
structure Entry where
  key : Key
  /-- The comments of all messages with the key. -/
  comments : List Text
  /-- The payload of the first of them. -/
  payload : Value
  /-- The origin of the first of them. -/
  origin : Text

namespace Entry

/-- The entry of a message whose key is new. -/
def ofMessage (m : Message) : Entry where
  key := m.key
  comments := m.notes
  payload := m.payload
  origin := m.origin

/-- An entry with the comments of one more message. -/
def merge (e : Entry) (m : Message) : Entry :=
  { e with comments := Text.sortDescending (e.comments ++ m.notes) }

end Entry

/-- Entries in the order in which their keys were first seen. -/
structure Catalog where
  entries : List Entry := []

namespace Catalog

/-- A catalog without entries. -/
def empty : Catalog := {}

/-- The number of entries. -/
def size (c : Catalog) : Nat := c.entries.length

/-- The entry of a key. -/
def get? (c : Catalog) (key : Key) : Option Entry := c.entries.find? (·.key == key)

/-- Whether there is an entry for a key. -/
def contains (c : Catalog) (key : Key) : Bool := (c.get? key).isSome

/-- A catalog with one more message. -/
def add (c : Catalog) (m : Message) : Catalog :=
  if c.contains m.key then
    { entries := c.entries.map fun e => if e.key == m.key then e.merge m else e }
  else { entries := c.entries ++ [Entry.ofMessage m] }

/-- A catalog with more messages, in their order. -/
def addAll (c : Catalog) (messages : List Message) : Catalog := messages.foldl add c

/-- The entry for the key that a value stands for. -/
def get (c : Catalog) (key : Value) : Except Error Entry :=
  match (Key.ofValue? key).bind c.get? with
  | some entry => .ok entry
  | none =>
    match key.show? with
    | some shown => .error (.noEntry shown)
    | none => .error .notShown

/-- Whether there is an entry for the key that a value stands for. -/
def containsValue (c : Catalog) (key : Value) : Bool :=
  (Key.ofValue? key).any c.contains

end Catalog

end Phrasebook
