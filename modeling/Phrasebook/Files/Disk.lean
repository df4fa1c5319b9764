import Phrasebook.Error
import Phrasebook.Files.FileSystem

/-!
# Phrasebook — what an extraction sees of the files

An extraction asks two questions of a path: what stands there, and what its bytes are. A *disk* is any
answer to them; a file system gives one.

* `Disk` — what stands at each path;
* `FileSystem.disk` — the disk of a file system;
* `Path.check` — which texts can be paths at all.
-/

namespace Phrasebook

/-- What stands at a path. -/
inductive Look where
  /-- A file, or anything else that is no directory. -/
  | file
  /-- A directory, with the names that it lists. -/
  | directory (names : List Text)

/-- The answers for all paths. -/
structure Disk where
  look : Text → Except Fault Look
  read : Text → Except Fault (List UInt8)

/-- The disk of a file system. -/
def FileSystem.disk (fs : FileSystem) : Disk where
  look path := do
    let location ← fs.resolve path
    if !fs.isDirectory location then .ok .file
    else if fs.permits location .read then .ok (.directory (fs.names location))
    else .error (.closed .permission)
  read := fs.read

/-- A code point that no path holds: a surrogate other than those that stand for single bytes. -/
def CodePoint.isUnpathable (c : CodePoint) : Bool :=
  c.isSurrogate && !(0xDC80 ≤ c.val && c.val ≤ 0xDCFF)

/-- Refuses a text that cannot be a path. -/
def Path.check (path : Text) : Except Error Unit :=
  match path.surrogatesAt? CodePoint.isUnpathable with
  | some (offset, surrogates) => .error (.unencodable offset surrogates)
  | none => if path.any (·.val == 0) then .error .nulInPath else .ok ()

end Phrasebook
