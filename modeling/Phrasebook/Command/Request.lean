import Phrasebook.Command.Word

/-!
# Phrasebook — what a command line asks for

The classified words are read from left to right. The first operand is the path; options take effect as
they are met, so that a request for help wins over whatever is wrong behind it. Words that nothing asks
for are reported at the end, and only if there is a path.

* `Settings` — a command line that asks for an extraction;
* `Request.read` — what a command line asks for.
-/

namespace Phrasebook.Command

/-- What has been read of a command line. -/
structure Settings where
  path : Option Text := none
  markers : List Text := []
  output : Text := []
  level : Level := .warning
  failFast : Bool := false
  /-- Words that nothing asks for. -/
  extras : List Text := []

/-- What a command line asks for. -/
inductive Request where
  | help
  | misuse (cause : Misuse)
  | extract (path : Text) (settings : Settings)

namespace Request

/-- The effect of an option. Help ends the reading, and so does a level that does not exist. -/
def apply (settings : Settings) (flag : Flag) (value : Text) : Except Request Settings :=
  match flag with
  | .help => .error .help
  | .marker => .ok { settings with markers := settings.markers ++ [value] }
  | .output => .ok { settings with output := value }
  | .logLevel =>
    match Level.all.find? fun level => (level.name : Text) == value with
    | some level => .ok { settings with level }
    | none => .error (.misuse (.noLevel value))
  | .failFast => .ok { settings with failFast := true }

/-- The text of an operand that follows an option. -/
def value? : List Word → Option Text
  | .operand text :: _ => some text
  | _ => none

/-- What a word that is an option amounts to. -/
structure Effects where
  /-- Options with their values, in order. -/
  flags : List (Flag × Text)
  /-- Whether the next word is used as a value. -/
  usesNext : Bool := false
  /-- Text that belongs to no option. -/
  left : List Text := []

/-- Options without values. -/
def bare (flags : List Flag) : List (Flag × Text) := flags.map fun flag => (flag, [])

/-- The effects of short options in one word: those already read, the last one, and the text behind it.
An option that takes a value takes all of that text, or the next word if there is none; behind any other
option the text goes on with more short options. -/
def short (next : Option Text) (before : List Flag) (last : Flag) : Text → Except Misuse Effects
  | [] =>
    if last.takesValue then
      match next with
      | some value => .ok { flags := bare before ++ [(last, value)], usesNext := true }
      | none => .error (.noValue last)
    else .ok { flags := bare (before ++ [last]) }
  | c :: rest =>
    let value := if c.is '=' && !before.isEmpty then rest else c :: rest
    if last.takesValue then .ok { flags := bare before ++ [(last, value)] }
    else if c.is '=' || c.is '-' then .error (.strayValue last value)
    else
      match Flag.find? [CodePoint.ofChar '-', c] with
      | some flag => short next (before ++ [last]) flag rest
      | none =>
        .ok { flags := bare (before ++ [last]), left := [CodePoint.ofChar '-' :: c :: rest] }

/-- The effects of an option with what is attached to it. -/
def effects (next : Option Text) (flag : Flag) : Attached → Except Misuse Effects
  | .nothing => short next [] flag []
  | .equals value =>
    if flag.takesValue then .ok { flags := [(flag, value)] } else .error (.strayValue flag value)
  | .direct text => short next [] flag text

/-- Applies options in order. -/
def applyAll (settings : Settings) : List (Flag × Text) → Except Request Settings
  | [] => .ok settings
  | (flag, value) :: rest => do
    let settings ← apply settings flag value
    applyAll settings rest

/-- Reads words from left to right. `used` says that the next word was used as a value. -/
def readWords (settings : Settings) (used : Bool) : List Word → Except Request Settings
  | [] => .ok settings
  | word :: rest =>
    if used then readWords settings false rest
    else
      match word with
      | .operand text =>
        if settings.path.isNone then
          readWords { settings with path := some text } (rest.head? == some .divider) rest
        else readWords { settings with extras := settings.extras ++ [text] } false rest
      | .divider =>
        match settings.path, value? rest with
        | none, some text => readWords { settings with path := some text } true rest
        | _, _ =>
          readWords { settings with extras := settings.extras ++ [Word.dividerText] } false rest
      | .unknown text =>
        readWords { settings with extras := settings.extras ++ [text] } false rest
      | .option flag attached =>
        match effects (value? rest) flag attached with
        | .error cause => .error (.misuse cause)
        | .ok found =>
          match applyAll settings found.flags with
          | .error request => .error request
          | .ok settings =>
            readWords { settings with extras := settings.extras ++ found.left } found.usesNext rest

/-- What a command line asks for. -/
def read (args : List Text) : Request :=
  match Word.classifyAll args with
  | .error cause => .misuse cause
  | .ok words =>
    match readWords {} false words with
    | .error request => request
    | .ok settings =>
      match settings.path with
      | none => .misuse .noPath
      | some path =>
        if settings.extras.isEmpty then .extract path settings
        else .misuse (.unrecognized settings.extras)

end Request

end Phrasebook.Command
