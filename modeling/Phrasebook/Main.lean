import Phrasebook.Command.Report

/-!
# Phrasebook — the program

The outer layer: takes what a command line can reach into a file system, runs the command line on it, and
carries out its report. Links to directories are taken in as directories, as deep as the system follows
them.
-/

namespace Phrasebook.Program

/-- The characters of a text as a string. -/
def stringOf (text : Text) : String := String.ofList (text.filterMap CodePoint.toChar?)

/-- The path from the root to a location. -/
def absolute (location : Location) : Text := ("/" : Text) ++ Text.joinWith "/" location

/-- The location of a path, seen from a directory. -/
def locate (directory : Location) (path : Text) : Location :=
  let components := FileSystem.start directory path ++ Path.components path
  (Path.reduce true [] components).reverse

/-- Takes in what stands at a location, without its bytes and without what lies below it. -/
def takeItem (fs : FileSystem) (location : Location) : IO FileSystem := do
  let path := (← IO.currentDir) / stringOf (absolute location)
  try
    let item : Item :=
      match (← path.metadata).type with
      | .dir => .directory
      | .file => .file []
      | _ => .socket
    return fs.set location item
  catch _ => return fs

/-- Takes in the directories that lead to a location, and what stands there. -/
def takePath (fs : FileSystem) (location : Location) : IO FileSystem :=
  (List.range (location.length + 1)).foldlM (fun fs n => takeItem fs (location.take n)) fs

/-- Takes in everything at and below a location. A link that leads nowhere stays one, and so does a link
that leads back to itself. -/
partial def takeTree (fs : FileSystem) (location : Location) : IO FileSystem := do
  let path := (← IO.currentDir) / stringOf (absolute location)
  try
    match (← path.metadata).type with
    | .dir =>
      let mut taken := fs.set location .directory
      for entry in ← path.readDir do
        taken ← takeTree taken (location ++ [Text.ofString entry.fileName])
      return taken
    | .file => return fs.set location (.file (← IO.FS.readBinFile path).toList)
    | _ => return fs.set location .socket
  catch
    | .noFileOrDirectory _ _ _ => return fs.set location (.link [])
    | _ => return fs.set location (.link (absolute location))

/-- The part of the real file system that a request can reach. -/
def reach (request : Command.Request) : IO FileSystem := do
  let here := locate [] (Text.ofString (← IO.currentDir).toString)
  let fs ← takePath { workingDirectory := here } here
  match request with
  | .extract path settings => do
    let fs ← if settings.output.isEmpty then pure fs else takePath fs (locate here settings.output)
    let target := locate here path
    let fs ← takePath fs target
    if (fs.item? target).isSome then takeTree fs target else return fs
  | _ => return fs

/-- Writes the files that a report changes. -/
def store (before : FileSystem) (report : Command.Report) : IO Unit :=
  (report.files.changedSince before).forM fun (path, bytes) =>
    IO.FS.writeBinFile (stringOf path) ⟨bytes.toArray⟩

/-- The status of an ending, and what remains to be said about it. -/
def statusOf : Command.Ending → UInt32 × Text
  | .status code => (code.toUInt32, [])
  | .escaped error => (1, error.message ++ ("\n" : Text))

end Phrasebook.Program

open Phrasebook in
/-- Runs the command line. -/
def main (args : List String) : IO UInt32 := do
  let request := Command.Request.read (args.map Text.ofString)
  let fs ← Program.reach request
  let report := Command.answer fs request
  Program.store fs report
  let (status, remark) := Program.statusOf report.ending
  (← IO.getStdout).putStr (Program.stringOf report.standardOutput)
  (← IO.getStderr).putStr (Program.stringOf (report.standardError ++ remark))
  return status
