import Phrasebook.Error
import Phrasebook.Files.Path
import Phrasebook.Page
import Phrasebook.Script.Lower
import Phrasebook.Script.Parse

/-!
# Phrasebook — sources

A registry says by extension how the text of a source becomes the text of a script. The script is then
parsed and lowered.

* `Registry.standard` — the registry for scripts and pages;
* `Source.parse` — the kept tree of a source.
-/

namespace Phrasebook

/-- How the text of a source becomes that of a script. -/
abbrev Transform := Text → Except Refusal Text

/-- Transforms by extension. -/
abbrev Registry := List (Text × Transform)

namespace Registry

/-- The text of a script is used as it is. -/
def script : Transform := .ok

/-- Of a page the inline scripts are used. -/
def page (text : Text) : Except Refusal Text := .ok (Page.code text)

/-- The extensions of scripts and pages. -/
def standard : Registry :=
  [("CJS", script), ("HTM", page), ("HTML", page), ("JS", script), ("JSX", script), ("MJS", script)]

/-- The transform for an extension. -/
def find? (registry : Registry) (extension : Text) : Option Transform := registry.lookup extension

/-- Whether there is a transform for an extension. -/
def covers (registry : Registry) (extension : Text) : Bool := (registry.find? extension).isSome

end Registry

namespace Source

/-- The characters of a text, which has to be writable as UTF-8. -/
def characters (code : Text) : Except Error (List Char) :=
  match code.toChars? with
  | some cs => .ok cs
  | none =>
    match code.surrogatesAt? CodePoint.isSurrogate with
    | some (offset, surrogates) => .error (.unencodable offset surrogates)
    | none => .error (.unencodable 0 [])

/-- The script text of a source. -/
def code (registry : Registry) (path text : Text) : Except Error Text :=
  match registry.find? (Path.extension path) with
  | none => .error (.unknownExtension (Path.extension path))
  | some transform => (transform text).mapError (.refused path)

/-- The kept tree of a script. -/
def tree (path : Text) (script : List Char) : Except Error Script.Node :=
  let root := Script.parse script
  if root.hasError then .error (.outsideGrammar path root.firstErrorLine)
  else (Script.Lower.lower root).mapError .noValue

/-- The kept tree of a source. -/
def parse (registry : Registry) (path text : Text) : Except Error Script.Node := do
  let script ← characters (← code registry path text)
  tree path script

end Source

end Phrasebook
