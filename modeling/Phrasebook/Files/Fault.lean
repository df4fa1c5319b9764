import Phrasebook.Value

/-!
# Phrasebook — why a path cannot be used

The causes that the system reports when a path is looked up or opened. Each has a number, and a message
that names the path.
-/

namespace Phrasebook

/-- What keeps a program from what stands at a path. -/
inductive Barrier where
  /-- No device answers there. -/
  | device
  /-- The program lacks the permission. -/
  | permission
deriving DecidableEq

/-- Why a path cannot be used. -/
inductive Fault where
  /-- Nothing stands at the path. -/
  | notFound
  /-- Something on the path cannot be opened for reading, writing or listing, or for looking up a name. -/
  | closed (barrier : Barrier)
  /-- The path leads through something that is no directory. -/
  | notDirectory
  /-- The path is a directory, where a file is needed. -/
  | isDirectory
  /-- A name of the path, or the path itself, is too long. -/
  | nameTooLong
  /-- The path leads through too many symbolic links. -/
  | tooManyLinks
deriving DecidableEq

namespace Fault

/-- The fault at something closed, where it does not matter what keeps the program out. -/
@[match_pattern] abbrev noDevice {barrier : Barrier} : Fault := .closed barrier

/-- The number of a fault. -/
def number : Fault → Nat
  | .notFound => 2
  | .closed .device => 6
  | .closed .permission => 13
  | .notDirectory => 20
  | .isDirectory => 21
  | .nameTooLong => 36
  | .tooManyLinks => 40

/-- The description of a fault. -/
def text : Fault → String
  | .notFound => "No such file or directory"
  | .closed .device => "No such device or address"
  | .closed .permission => "Permission denied"
  | .notDirectory => "Not a directory"
  | .isDirectory => "Is a directory"
  | .nameTooLong => "File name too long"
  | .tooManyLinks => "Too many levels of symbolic links"

/-- The message for a fault at a path. -/
def message (fault : Fault) (path : Text) : Text :=
  ("[Errno " : Text) ++ Text.ofNat fault.number ++ ("] " : Text) ++ fault.text ++ (": " : Text) ++
    Value.quoted path

end Fault

end Phrasebook
