import Phrasebook.Files.Fault

/-!
# Phrasebook — events

What an extraction reports while it goes on. Each event has a level, and a line that names its level and
the step that reports it.
-/

namespace Phrasebook

/-- How important an event is. -/
inductive Level where
  | debug
  | info
  | warning
  | error
deriving DecidableEq

namespace Level

/-- The name of a level. -/
def name : Level → String
  | .debug => "DEBUG"
  | .info => "INFO"
  | .warning => "WARNING"
  | .error => "ERROR"

/-- All levels, the least important first. -/
def all : List Level := [.debug, .info, .warning, .error]

/-- The rank of a level. -/
def rank : Level → Nat
  | .debug => 0
  | .info => 1
  | .warning => 2
  | .error => 3

end Level

/-- What an extraction reports. -/
inductive Event where
  /-- A file is about to be read. -/
  | reading (path : Text)
  /-- A file gave a number of messages. -/
  | extracted (count : Nat) (path : Text)
  /-- A file has no registered extension. -/
  | skipped (path : Text)
  /-- A path cannot be read. -/
  | unreadable (path : Text) (fault : Fault)
  /-- A number of entries is about to be written. -/
  | writing (count : Nat)
deriving DecidableEq

namespace Event

/-- The level of an event. -/
def level : Event → Level
  | .reading _ => .info
  | .extracted _ _ => .debug
  | .skipped _ => .debug
  | .unreadable _ _ => .error
  | .writing _ => .info

/-- The step that reports an event. -/
def step : Event → String
  | .reading _ => "read_source"
  | .extracted _ _ => "extract_file"
  | .skipped _ => "walk_files"
  | .unreadable _ _ => "report_error"
  | .writing _ => "run"

/-- What an event says. -/
def text : Event → Text
  | .reading path => ("reading " : Text) ++ path
  | .extracted count path => Text.ofNat count ++ (" message(s) in " : Text) ++ path
  | .skipped path => ("skipping " : Text) ++ path
  | .unreadable path fault =>
    ("cannot read " : Text) ++ path ++ (": " : Text) ++ fault.message path
  | .writing count => ("writing " : Text) ++ Text.ofNat count ++ (" message(s)" : Text)

/-- The line of an event. -/
def line (e : Event) : Text :=
  (e.level.name : Text) ++ (" " : Text) ++ (e.step : Text) ++ (": " : Text) ++ e.text

/-- Whether an event is shown at a level. -/
def isShown (level : Level) (e : Event) : Bool := level.rank ≤ e.level.rank

end Event

end Phrasebook
