import Phrasebook.Text.UpperCase

/-!
# Phrasebook — paths

A path is a text; slashes divide it into components. Paths are normalised and joined as texts, without
a look at the files they lead to.

* `Path.normalize` — the shortest path with the same components, up to `.` and `..`;
* `Path.join` — the path of a name in a directory;
* `Path.extension` — what decides how a file is read.
-/

namespace Phrasebook.Path

/-- The components of a path, empty ones included. -/
def components (path : Text) : List Text := Text.splitOn '/' path

/-- The component that stands for the directory itself. -/
def dot : Text := "."

/-- The component that stands for the parent of a directory. -/
def dotDot : Text := ".."

/-- The components that remain of a path, the last one first; `rooted` says that the path starts at the
root, above which there is nothing. -/
def reduce (rooted : Bool) (kept : List Text) : List Text → List Text
  | [] => kept
  | c :: rest =>
    if c == [] || c == dot then reduce rooted kept rest
    else if c == dotDot then
      match kept with
      | [] => if rooted then reduce rooted [] rest else reduce rooted [c] rest
      | last :: before =>
        if last == dotDot then reduce rooted (c :: kept) rest else reduce rooted before rest
    else reduce rooted (c :: kept) rest

/-- How many slashes a normalised path starts with: two stay two, more are one. -/
def leadingSlashes (path : Text) : Nat :=
  match (path.takeWhile (·.is '/')).length with
  | 0 => 0
  | 2 => 2
  | _ => 1

/-- A path without empty components and `.`, and without `..` behind a name. -/
def normalize (path : Text) : Text :=
  let slashes := leadingSlashes path
  let kept := (reduce (slashes != 0) [] (components path)).reverse
  let result := List.replicate slashes (CodePoint.ofChar '/') ++ Text.joinWith "/" kept
  if result.isEmpty then dot else result

/-- The path of a name in a directory. Names of entries hold no slash, so that none starts a path of its own. -/
def join (directory name : Text) : Text :=
  if directory.isEmpty || directory.getLast?.any (·.is '/') then directory ++ name
  else directory ++ ("/" : Text) ++ name

/-- The last component of a path. -/
def fileName (path : Text) : Text := (components path).getLastD []

/-- What stands behind the last dot of a name in upper case; nothing if only dots stand before it. -/
def extensionOfName (name : Text) : Text :=
  let behind := (name.reverse.takeWhile (!·.is '.')).reverse
  let before := name.take (name.length - behind.length)
  if before.any (!·.is '.') then Text.upper behind else []

/-- The extension of a path. -/
def extension (path : Text) : Text := extensionOfName (fileName path)

end Phrasebook.Path
