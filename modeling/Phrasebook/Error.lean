import Phrasebook.Files.Fault
import Phrasebook.Script.Escape

/-!
# Phrasebook — errors

Everything that can end an extraction early, by cause. An error that the author of a source can mend is
*reported*: the command line shows its message and ends with a failure. The others escape from it.

* `Error` — the causes;
* `Error.message` — the text of each;
* `Error.isReported` — whether the command line reports an error.
-/

namespace Phrasebook

/-- Why a transform refuses a text. -/
structure Refusal where
  /-- The name of the kind of failure. -/
  kind : Text
  reason : Text
deriving DecidableEq

/-- Why an extraction ends early. -/
inductive Error where
  /-- A script is outside the grammar; the error shows on the given line. -/
  | outsideGrammar (path : Text) (line : Nat)
  /-- The transform of a source refuses its text. -/
  | refused (path : Text) (refusal : Refusal)
  /-- A payload is no text and no pair of texts. -/
  | notText (origin shown : Text)
  /-- A payload is no text, and cannot be shown because it holds an integer of too many digits. -/
  | notShown
  /-- A string literal has no value. -/
  | noValue (failure : Escape.Failure)
  /-- No transform is registered for an extension. -/
  | unknownExtension (extension : Text)
  /-- A catalog has no entry for a key. -/
  | noEntry (shown : Text)
  /-- A text has surrogates at an offset, so that it cannot be written as UTF-8. -/
  | unencodable (offset : Nat) (surrogates : Text)
  /-- A path holds the code point zero. -/
  | nulInPath
  /-- A path cannot be used. -/
  | file (path : Text) (fault : Fault)
deriving DecidableEq

namespace Error

/-- How the message for unencodable text shows where it stands. -/
def place (offset : Nat) : Text → Text
  | [c] =>
    ("character '\\u" : Text) ++ Text.ofChars (Value.hex 4 c.val) ++ ("' in position " : Text) ++
      Text.ofNat offset
  | surrogates =>
    ("characters in position " : Text) ++ Text.ofNat offset ++ ("-" : Text) ++
      Text.ofNat (offset + surrogates.length - 1)

/-- The text of an error. -/
def message : Error → Text
  | .outsideGrammar path line =>
    ("Cannot parse " : Text) ++ path ++ (": syntax error at line " : Text) ++ Text.ofNat line
  | .refused path refusal =>
    ("Cannot parse " : Text) ++ path ++ (": " : Text) ++ refusal.kind ++ (": " : Text) ++
      refusal.reason
  | .notText origin shown =>
    ("ERROR: something went wrong in " : Text) ++ origin ++
      (": expected a string literal, got " : Text) ++ shown
  | .notShown =>
    ("Exceeds the limit (" : Text) ++ Text.ofNat Numeral.maxDigits ++
      (" digits) for integer string conversion; use sys.set_int_max_str_digits() to increase the limit"
        : Text)
  | .noValue .beyondLast => "chr() arg not in range(0x110000)"
  | .noValue .overflow => "Python int too large to convert to C int"
  | .unknownExtension extension => Value.quoted extension
  | .noEntry shown => shown
  | .unencodable offset surrogates =>
    ("'utf-8' codec can't encode " : Text) ++ place offset surrogates ++
      (": surrogates not allowed" : Text)
  | .nulInPath => "embedded null byte"
  | .file path fault => fault.message path

/-- Whether the command line reports an error: the script, its transform or a payload is at fault. -/
def isReported : Error → Bool
  | .outsideGrammar _ _ => true
  | .refused _ _ => true
  | .notText _ _ => true
  | .notShown => false
  | .noValue _ => false
  | .unknownExtension _ => false
  | .noEntry _ => false
  | .unencodable _ _ => false
  | .nulInPath => false
  | .file _ _ => false

/-- The error for a payload that is no text. -/
def ofPayload (origin : Text) (payload : Value) : Error :=
  match payload.show? with
  | some shown => .notText origin shown
  | none => .notShown

end Error

end Phrasebook
