import Phrasebook.Event
import Phrasebook.Files.Walk
import Phrasebook.Marker
import Phrasebook.Placeholder
import Phrasebook.Source
import Phrasebook.Template

/-!
# Phrasebook — extractions

An extraction walks from a path, collects the messages of every source it can read, and writes them as a
template. The header is written first. A path that cannot be read is reported and passed over, unless the
extraction is to stop at the first one; a source that cannot be parsed ends it.

* `Extraction.messages` — the messages of one source;
* `Extraction.collect` — a catalog with the messages of everything below a path;
* `Extraction.run` — a whole extraction.
-/

namespace Phrasebook

/-- What to extract, and how. -/
structure Extraction where
  markers : List Marker
  registry : Registry := Registry.standard
  /-- Whether the first path that cannot be read ends the extraction. -/
  failFast : Bool := false

/-- Why an extraction ended early. -/
inductive Halt where
  | failed (error : Error)
  /-- A path could not be read, and the extraction was to stop there. -/
  | stopped
deriving DecidableEq

namespace Extraction

/-- The marker that is used if none is given. -/
def defaultMarkers : List Text := ["__"]

/-- The markers for a list of names. -/
def markersOf (names : List Text) : List Marker :=
  (if names.isEmpty then defaultMarkers else names).map Marker.ofText

/-! ## One source -/

/-- The text of bytes read from a file. -/
def decodeBytes (bytes : List UInt8) : Text := Text.ofChars (Utf8.foldNewlines (Utf8.decode bytes))

/-- The text of a source. -/
def readSource (disk : Disk) (path : Text) : Except Error Text := do
  Path.check path
  let bytes ← (disk.read path).mapError (.file path)
  return decodeBytes bytes

/-- The messages of the text of a source, before their placeholders are decoded. -/
def rawMessages (x : Extraction) (path text : Text) : Except Error (List Message) := do
  let root ← Source.parse x.registry path text
  return Marker.messages path x.markers root

/-- Events, and what came of it. -/
structure Logged (α : Type) where
  log : List Event
  result : Except Error α

/-- The messages of one source. -/
def messages (x : Extraction) (disk : Disk) (path : Text) : Logged (List Message) :=
  match readSource disk path >>= x.rawMessages path with
  | .error error => { log := [.reading path], result := .error error }
  | .ok found =>
    { log := [.reading path, .extracted found.length path]
      result := .ok (found.map Message.decoded) }

/-! ## A catalog -/

/-- Events, the catalog so far, and why there is no more. -/
structure Collected where
  log : List Event
  catalog : Catalog
  halt : Option Halt

/-- What was collected, with events before it. -/
def Collected.after (events : List Event) (c : Collected) : Collected :=
  { c with log := events ++ c.log }

/-- Collects the messages of visited sources into a catalog. -/
def collectVisits (x : Extraction) (disk : Disk) (catalog : Catalog) : List Visit → Collected
  | [] => { log := [], catalog, halt := none }
  | .skipped path :: rest => (x.collectVisits disk catalog rest).after [.skipped path]
  | .unreadable path fault :: rest =>
    if x.failFast then { log := [.unreadable path fault], catalog, halt := some .stopped }
    else (x.collectVisits disk catalog rest).after [.unreadable path fault]
  | .found path :: rest =>
    let source := x.messages disk path
    match source.result with
    | .ok found => (x.collectVisits disk (catalog.addAll found) rest).after source.log
    | .error (.file _ fault) =>
      if x.failFast then
        { log := source.log ++ [.unreadable path fault], catalog, halt := some .stopped }
      else (x.collectVisits disk catalog rest).after (source.log ++ [.unreadable path fault])
    | .error error => { log := source.log, catalog, halt := some (.failed error) }

/-- Collects the messages of everything below a path into a catalog. -/
def collect (x : Extraction) (disk : Disk) (depth : Nat) (path : Text) (catalog : Catalog) :
    Collected :=
  let root := Path.normalize path
  match Path.check root with
  | .error error => { log := [], catalog, halt := some (.failed error) }
  | .ok () => x.collectVisits disk catalog (Walk.visits disk x.registry.covers depth root)

/-! ## A template -/

/-- Events, the text written, the catalog behind it, and why the extraction ended early. -/
structure Result where
  log : List Event
  output : Text
  catalog : Catalog
  halt : Option Halt

/-- A whole extraction. -/
def run (x : Extraction) (disk : Disk) (depth : Nat) (path : Text) : Result :=
  let collected := x.collect disk depth path .empty
  match collected.halt with
  | some halt =>
    { log := collected.log, output := Template.header, catalog := collected.catalog,
      halt := some halt }
  | none =>
    let written := Template.write collected.catalog.entries
    { log := collected.log ++ [.writing collected.catalog.size]
      output := Template.header ++ written.text
      catalog := collected.catalog
      halt := written.error.map .failed }

/-- A walk by itself: its visits, or why the path cannot be looked at. -/
def walk (registry : Registry) (disk : Disk) (depth : Nat) (path : Text) :
    Except Error (List Visit) := do
  Path.check path
  return Walk.visits disk registry.covers depth path

end Extraction

end Phrasebook
