import Phrasebook.Files.Disk

/-!
# Phrasebook — walks

A walk visits everything below a path, depth first, in the order in which directories list their names.
Links to directories are followed like directories; a cycle ends where the system refuses to follow
more links.

* `Visit` — what a walk meets;
* `Walk.visits` — the visits of a walk, to a given depth;
* `Walk.enough` — a depth that no path of a file system exceeds.
-/

namespace Phrasebook

/-- What a walk meets at a path that is no directory. -/
inductive Visit where
  /-- A file whose extension is registered. -/
  | found (path : Text)
  /-- Any other file. -/
  | skipped (path : Text)
  /-- A path that cannot be looked at. -/
  | unreadable (path : Text) (fault : Fault)
deriving DecidableEq

namespace Walk

/-- The visits at a path and below it, to the given depth. -/
def visits (disk : Disk) (registered : Text → Bool) : Nat → Text → List Visit
  | 0, _ => []
  | depth + 1, path =>
    match disk.look path with
    | .error fault => [.unreadable path fault]
    | .ok .file =>
      if registered (Path.extension path) then [.found path] else [.skipped path]
    | .ok (.directory names) =>
      names.flatMap fun name => visits disk registered depth (Path.join path name)

/-- A depth that suffices for every walk of a file system: a path leads through at most
`FileSystem.maxLinks` links, and between two of them it only goes down. -/
def enough (fs : FileSystem) : Nat := (FileSystem.maxLinks + 1) * (fs.depth + 1) + 1

end Walk

end Phrasebook
