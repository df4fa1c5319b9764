import Phrasebook.Event
import Phrasebook.Text.Digit

/-!
# Phrasebook — words of the command line

Before anything is done, every word of the command line is classified: an operand, an option that is
known, an option that is not, or the divider `--`, behind which every word is an operand.

A long option may be shortened as long as it stays unique, and may have its value behind an equals sign.
A short option may have its value, or further short options, directly behind it.

* `Flag`, `Flag.spellings` — the options;
* `Misuse` — what can be wrong with a command line, and `Misuse.message` its wording;
* `Word.classify` — the words of a command line.
-/

namespace Phrasebook.Command

/-- The options of the command line. -/
inductive Flag where
  | help
  | marker
  | output
  | logLevel
  | failFast
deriving DecidableEq

namespace Flag

/-- How options are spelled, in the order in which they are listed. -/
def spellings : List (Text × Flag) :=
  [("-h", .help), ("--help", .help), ("-m", .marker), ("--marker", .marker), ("-o", .output),
    ("--output", .output), ("--loglevel", .logLevel), ("--fail-fast", .failFast)]

/-- The option with a spelling. -/
def find? (spelling : Text) : Option Flag := spellings.lookup spelling

/-- Whether an option is followed by a value. -/
def takesValue : Flag → Bool
  | .help => false
  | .marker => true
  | .output => true
  | .logLevel => true
  | .failFast => false

/-- The name of an option in messages: its spellings. -/
def name (flag : Flag) : Text :=
  Text.joinWith "/" (spellings.filterMap fun (spelling, f) => if f = flag then some spelling else none)

end Flag

/-- What is wrong with a command line. -/
inductive Misuse where
  /-- There is no path. -/
  | noPath
  /-- An option lacks its value. -/
  | noValue (flag : Flag)
  /-- An option that takes no value has one. -/
  | strayValue (flag : Flag) (value : Text)
  /-- There is no such level. -/
  | noLevel (value : Text)
  /-- A shortened option could be one of several. -/
  | ambiguous (word : Text) (candidates : List Text)
  /-- Words that nothing asks for. -/
  | unrecognized (words : List Text)
deriving DecidableEq

/-- The text of a misuse. -/
def Misuse.message : Misuse → Text
  | .noPath => "the following arguments are required: path"
  | .noValue flag => ("argument " : Text) ++ flag.name ++ (": expected one argument" : Text)
  | .strayValue flag value =>
    ("argument " : Text) ++ flag.name ++ (": ignored explicit argument " : Text) ++
      Value.quoted value
  | .noLevel value =>
    ("argument " : Text) ++ Flag.logLevel.name ++ (": invalid choice: " : Text) ++
      Value.quoted value ++ (" (choose from " : Text) ++
      Text.joinWith ", " (Level.all.map fun level => Value.quoted level.name) ++ (")" : Text)
  | .ambiguous word candidates =>
    ("ambiguous option: " : Text) ++ word ++ (" could match " : Text) ++
      Text.joinWith ", " candidates
  | .unrecognized words => ("unrecognized arguments: " : Text) ++ Text.joinWith " " words

/-- What stands behind an option in the same word. -/
inductive Attached where
  | nothing
  /-- Text directly behind a short option. -/
  | direct (text : Text)
  /-- Text behind an equals sign. -/
  | equals (text : Text)
deriving DecidableEq

/-- A word of the command line. -/
inductive Word where
  | operand (text : Text)
  /-- The word `--`. -/
  | divider
  /-- An option, with what is attached to it. -/
  | option (flag : Flag) (attached : Attached)
  /-- A word that looks like an option but is none. -/
  | unknown (text : Text)
deriving DecidableEq

namespace Word

/-- The word that ends the options. -/
def dividerText : Text := "--"

/-- The text before the first equals sign, and what stands behind it. -/
def splitAtEquals (word : Text) : Text × Attached :=
  let before := word.takeWhile (!·.is '=')
  match word.drop before.length with
  | [] => (before, .nothing)
  | _ :: value => (before, .equals value)

/-- Whether a word is a negative decimal: a hyphen, digits of any script, and perhaps a point before
the last of them. A line feed at the end does not count. -/
def isNegativeNumber (word : Text) : Bool :=
  match word with
  | [] => false
  | hyphen :: rest =>
    let rest := if rest.getLast?.any (·.is '\n') then rest.dropLast else rest
    let isDigit (c : CodePoint) : Bool := c.decimal?.isSome
    let whole := rest.takeWhile isDigit
    let fraction := rest.drop whole.length
    hyphen.is '-' &&
      match fraction with
      | [] => !whole.isEmpty
      | point :: digits => point.is '.' && !digits.isEmpty && digits.all isDigit

/-- The options that a word of two hyphens may be short for. -/
def longCandidates (start : Text) : List (Text × Flag) :=
  Flag.spellings.filter fun (spelling, _) => start.isPrefixOf spelling

/-- A word that starts with a hyphen and is no option as it stands. -/
def classifyOther (word : Text) : Word :=
  if isNegativeNumber word || word.any (·.is ' ') then .operand word else .unknown word

/-- A word that starts with two hyphens and is no option as it stands. -/
def classifyLong (word : Text) : Except Misuse Word :=
  let (start, attached) := splitAtEquals word
  match longCandidates start with
  | [] => .ok (classifyOther word)
  | [(_, flag)] => .ok (.option flag attached)
  | candidates => .error (.ambiguous word (candidates.map (·.1)))

/-- A word that starts with one hyphen and is no option as it stands. -/
def classifyShort (word : Text) : Word :=
  match Flag.find? (word.take 2) with
  | some flag => .option flag (.direct (word.drop 2))
  | none => classifyOther word

/-- Whether the code point at an offset is a hyphen. -/
def hyphenAt (word : Text) (offset : Nat) : Bool := word[offset]?.any (·.is '-')

/-- A word of several code points that starts with a hyphen and is no option as it stands. -/
def classifyUnlisted (word : Text) : Except Misuse Word :=
  match splitAtEquals word with
  | (start, .equals value) =>
    match Flag.find? start with
    | some flag => .ok (.option flag (.equals value))
    | none => if hyphenAt word 1 then classifyLong word else .ok (classifyShort word)
  | _ => if hyphenAt word 1 then classifyLong word else .ok (classifyShort word)

/-- Classifies a word other than the divider. -/
def classify (word : Text) : Except Misuse Word :=
  if !hyphenAt word 0 then .ok (.operand word)
  else
    match Flag.find? word with
    | some flag => .ok (.option flag .nothing)
    | none => if word.length == 1 then .ok (.operand word) else classifyUnlisted word

/-- Classifies the words of a command line. -/
def classifyAll : List Text → Except Misuse (List Word)
  | [] => .ok []
  | word :: rest =>
    if word == dividerText then .ok (.divider :: rest.map .operand)
    else do
      let first ← classify word
      let others ← classifyAll rest
      return first :: others

end Word

end Phrasebook.Command
