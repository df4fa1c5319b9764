import Phrasebook.Files.Fault
import Phrasebook.Files.Path
import Phrasebook.Text.Utf8

/-!
# Phrasebook — file systems

A finite file system: files, directories, symbolic links and sockets, each at a *location*, which is the
list of names that lead to it from the root. Paths are resolved component by component; a link is
replaced by the components of its target, at most `maxLinks` times. At some locations the program may be
denied to read, to write, or to look for names.

* `FileSystem.resolve` — the location that a path leads to;
* `FileSystem.names` — what a directory lists, in the order of code points;
* `FileSystem.put`, `FileSystem.remove` — files come and go;
* `FileSystem.openForWriting` — empties or creates the file that will be written.
-/

namespace Phrasebook

/-- The names that lead from the root to an item. -/
abbrev Location := List Text

/-- What can stand at a location. -/
inductive Item where
  | file (bytes : List UInt8)
  | directory
  | link (target : Text)
  | socket
deriving DecidableEq

/-- What a program can be denied at a location. -/
inductive Access where
  /-- To read a file, or to list a directory. -/
  | read
  /-- To write a file, or to make files in a directory. -/
  | write
  /-- To look for a name in a directory. -/
  | search
deriving DecidableEq

/-- Items by location, and the directory at which relative paths start. -/
structure FileSystem where
  items : List (Location × Item) := []
  workingDirectory : Location := []
  /-- What the program is denied. -/
  denied : List (Location × Access) := []

namespace FileSystem

/-- The number of links that a path may lead through. -/
def maxLinks : Nat := 40

/-- The length of a name in bytes, at most. -/
def maxName : Nat := 255

/-- A path is shorter than this number of bytes. -/
def maxPath : Nat := 4096

/-- The number of bytes of a text; a surrogate stands for a byte that is no UTF-8. -/
def byteLength (t : Text) : Nat :=
  t.foldl (fun n c => n + (c.toChar?.map fun ch => (Utf8.encodeChar ch).length).getD 1) 0

/-- What stands at a location. The root is a directory. -/
def item? (fs : FileSystem) (location : Location) : Option Item :=
  if location.isEmpty then some .directory else fs.items.lookup location

/-- Whether a directory stands at a location. -/
def isDirectory (fs : FileSystem) (location : Location) : Bool :=
  fs.item? location == some .directory

/-- Whether the program is not denied something at a location. -/
def permits (fs : FileSystem) (location : Location) (access : Access) : Bool :=
  !fs.denied.contains (location, access)

/-! ## Resolution -/

/-- Whether a path starts at the root. -/
def isRooted (path : Text) : Bool := path.head?.any (·.is '/')

/-- Where a path starts that is met in the given directory. -/
def start (directory : Location) (path : Text) : Location :=
  if isRooted path then [] else directory

/-- Goes on from a location by components. Before each the location has to be a directory, and before one
that is not empty names may be looked for in it. A link is left to `follow`, with the directory that holds
it and all components still to go. -/
def descend (fs : FileSystem) (follow : Location → List Text → Except Fault Location)
    (location : Location) : List Text → Except Fault Location
  | [] => .ok location
  | c :: rest =>
    if !fs.isDirectory location then .error .notDirectory
    else if c != [] && !fs.permits location .search then .error (.closed .permission)
    else if c == [] || c == Path.dot then fs.descend follow location rest
    else if c == Path.dotDot then fs.descend follow location.dropLast rest
    else if maxName < byteLength c then .error .nameTooLong
    else
      match fs.item? (location ++ [c]) with
      | none => .error .notFound
      | some (.link target) =>
        if target.isEmpty then .error .notFound
        else follow (start location target) (Path.components target ++ rest)
      | some _ => fs.descend follow (location ++ [c]) rest

/-- Goes on from a location by components, through at most the given number of links. -/
def walkTo (fs : FileSystem) : Nat → Location → List Text → Except Fault Location
  | 0 => fs.descend fun _ _ => .error .tooManyLinks
  | links + 1 => fs.descend (fs.walkTo links)

/-- The components of a path that is neither empty nor too long. -/
def components? (path : Text) : Except Fault (List Text) :=
  if path.isEmpty then .error .notFound
  else if maxPath ≤ byteLength path then .error .nameTooLong
  else .ok (Path.components path)

/-- The location that a path leads to. -/
def resolve (fs : FileSystem) (path : Text) : Except Fault Location := do
  let components ← components? path
  fs.walkTo maxLinks (start fs.workingDirectory path) components

/-! ## Reading -/

/-- The names in a directory, in any order. -/
def namesIn (fs : FileSystem) (location : Location) : List Text :=
  fs.items.filterMap fun (l, _) =>
    match l.getLast? with
    | some name => if l.dropLast == location then some name else none
    | none => none

/-- Puts a name in its place among sorted names. -/
def insertName (name : Text) : List Text → List Text
  | [] => [name]
  | n :: ns => if Text.le name n then name :: n :: ns else n :: insertName name ns

/-- What a directory lists. -/
def names (fs : FileSystem) (location : Location) : List Text :=
  (fs.namesIn location).foldr insertName []

/-- The bytes of the file that a path leads to. -/
def read (fs : FileSystem) (path : Text) : Except Fault (List UInt8) := do
  let location ← fs.resolve path
  if !fs.permits location .read then throw (.closed .permission)
  match fs.item? location with
  | some (.file bytes) => return bytes
  | some .directory => throw .isDirectory
  | some .socket => throw (.closed .device)
  | _ => throw .notFound

/-- The number of names that lead to the deepest item. -/
def depth (fs : FileSystem) : Nat := fs.items.foldr (fun (l, _) d => max l.length d) 0

/-! ## Changes -/

/-- Puts an item at a location, in place of what stands there. -/
def set (fs : FileSystem) (location : Location) (item : Item) : FileSystem :=
  { fs with items := fs.items.filter (·.1 != location) ++ [(location, item)] }

/-- Makes the directories that lead from a location on by names; links to directories are followed. -/
def makeDirectories (fs : FileSystem) (location : Location) : List Text → FileSystem × Location
  | [] => (fs, location)
  | c :: rest =>
    match fs.walkTo maxLinks location [c, []] with
    | .ok next => makeDirectories fs next rest
    | .error _ => makeDirectories (fs.set (location ++ [c]) .directory) (location ++ [c]) rest

/-- The components of a path that name something. -/
def nameList (path : Text) : List Text := (Path.components path).filter (!·.isEmpty)

/-- Puts an item at a path and makes the directories that lead to it. An existing directory stays. -/
def put (fs : FileSystem) (path : Text) (item : Item) : FileSystem :=
  let names := nameList path
  let (fs, directory) := fs.makeDirectories (start fs.workingDirectory path) names.dropLast
  match names.getLast? with
  | none => fs
  | some name =>
    if item == .directory && fs.isDirectory (directory ++ [name]) then fs
    else fs.set (directory ++ [name]) item

/-- The directory and the name that a path ends with; links before the name are followed. -/
def parent (fs : FileSystem) (path : Text) : Except Fault (Location × Text) := do
  let components ← components? path
  let directory ← fs.walkTo maxLinks (start fs.workingDirectory path) (components.dropLast ++ [[]])
  return (directory, components.getLastD [])

/-- Removes what a path names; a link is removed itself. -/
def remove (fs : FileSystem) (path : Text) : Except Fault FileSystem := do
  let (directory, name) ← fs.parent path
  if !(fs.permits directory .search && fs.permits directory .write) then throw (.closed .permission)
  match fs.item? (directory ++ [name]) with
  | none => throw .notFound
  | some .directory => throw .isDirectory
  | some _ => return { fs with items := fs.items.filter (·.1 != directory ++ [name]) }

/-- Components without empty ones at the end. -/
def trimEnd (components : List Text) : List Text := (components.reverse.dropWhile (·.isEmpty)).reverse

/-- The last of the components, if a file in the directory can have that name. A path that ends with a slash
names a directory. -/
def fileName (fs : FileSystem) (directory : Location) (components : List Text) : Except Fault Text :=
  let names := trimEnd components
  let name := names.getLastD Path.dot
  if !fs.permits directory .search then .error (.closed .permission)
  else if name == Path.dot || name == Path.dotDot || names.length < components.length then
    .error .isDirectory
  else if maxName < byteLength name then .error .nameTooLong
  else .ok name

/-- The location of a file that is written under a name. One that exists has to be writable, and a new one
needs a writable directory. -/
def writable (fs : FileSystem) (directory : Location) (name : Text) : Except Fault Location :=
  let item := fs.item? (directory ++ [name])
  if item == some .directory then .error .isDirectory
  else if !fs.permits (if item.isSome then directory ++ [name] else directory) .write then
    .error (.closed .permission)
  else if item == some .socket then .error (.closed .device)
  else .ok (directory ++ [name])

/-- Where a file is written: links are followed, also to a name that does not exist yet. -/
def target (fs : FileSystem) : Nat → Location → List Text → Except Fault Location
  | links, location, components => do
    let directory ← fs.walkTo links location ((trimEnd components).dropLast ++ [[]])
    let name ← fs.fileName directory components
    match fs.item? (directory ++ [name]) with
    | some (.link onward) =>
      match links with
      | 0 => throw .tooManyLinks
      | links + 1 => fs.target links (start directory onward) (Path.components onward)
    | _ => fs.writable directory name

/-- Opens a file for writing: creates or empties it. The location says where it will be written. -/
def openForWriting (fs : FileSystem) (path : Text) : Except Fault (Location × FileSystem) := do
  let components ← components? path
  let location ← fs.target maxLinks (start fs.workingDirectory path) components
  return (location, fs.set location (.file []))

/-- The path of a location, seen from the working directory. -/
def pathOf (fs : FileSystem) (location : Location) : Text :=
  if fs.workingDirectory.isPrefixOf location then
    Text.joinWith "/" (location.drop fs.workingDirectory.length)
  else ("/" : Text) ++ Text.joinWith "/" location

/-- Puts a file in its place among files sorted by path. -/
def insertFile (file : Text × List UInt8) : List (Text × List UInt8) → List (Text × List UInt8)
  | [] => [file]
  | f :: fs => if Text.le file.1 f.1 then file :: f :: fs else f :: insertFile file fs

/-- The files that are new or changed since an earlier state, by path. -/
def changedSince (fs before : FileSystem) : List (Text × List UInt8) :=
  (fs.items.filterMap fun (location, item) =>
    match item with
    | .file bytes =>
      if before.item? location == some item then none else some (fs.pathOf location, bytes)
    | _ => none).foldr insertFile []

end FileSystem

end Phrasebook
