import Phrasebook.Command.Help
import Phrasebook.Command.Request
import Phrasebook.Extraction

/-!
# Phrasebook — the command line

The outcome of a command line as a function of its words and the file system: what is written to the two
standard streams, how the files change, and how the program ends. The output file is emptied before the
walk and filled at the end.

* `Report` — the outcome;
* `Command.run` — the outcome of a command line.
-/

namespace Phrasebook.Command

/-- How the program ends. -/
inductive Ending where
  | status (code : Nat)
  /-- With an error that it does not report. -/
  | escaped (error : Error)
deriving DecidableEq

/-- The outcome of a command line. -/
structure Report where
  ending : Ending
  standardOutput : Text
  standardError : Text
  files : FileSystem

/-- The ending of an extraction, and the message shown for it. -/
def endingOf : Option Halt → Ending × Text
  | none => (.status 0, [])
  | some .stopped => (.status 1, [])
  | some (.failed error) =>
    if error.isReported then (.status 1, error.message ++ ("\n" : Text)) else (.escaped error, [])

/-- The lines of the events that are shown at a level. -/
def logText (level : Level) (log : List Event) : Text :=
  (log.filter (·.isShown level)).flatMap fun event => event.line ++ ("\n" : Text)

/-- The extraction that settings ask for. -/
def Settings.extraction (settings : Settings) : Extraction where
  markers := Extraction.markersOf settings.markers
  failFast := settings.failFast

/-- The bytes of a text for a file. -/
def bytesOf (text : Text) : List UInt8 := Utf8.encode (text.filterMap CodePoint.toChar?)

/-- An extraction on a file system. -/
def runOn (fs : FileSystem) (path : Text) (settings : Settings) : Extraction.Result :=
  settings.extraction.run fs.disk (Walk.enough fs) path

/-- Standard error of an extraction. -/
def diagnostics (settings : Settings) (result : Extraction.Result) : Text :=
  logText settings.level result.log ++ (endingOf result.halt).2

/-- An extraction to standard output. -/
def extractToOutput (fs : FileSystem) (path : Text) (settings : Settings) : Report :=
  let result := runOn fs path settings
  { ending := (endingOf result.halt).1
    standardOutput := result.output
    standardError := diagnostics settings result
    files := fs }

/-- Opens the output file. -/
def openOutput (fs : FileSystem) (output : Text) : Except Error (Location × FileSystem) := do
  Path.check output
  (fs.openForWriting output).mapError (.file output)

/-- An extraction to a file. -/
def extractToFile (fs : FileSystem) (path : Text) (settings : Settings) : Report :=
  match openOutput fs settings.output with
  | .error error =>
    { ending := .escaped error, standardOutput := [], standardError := [], files := fs }
  | .ok (location, opened) =>
    let result := runOn opened path settings
    { ending := (endingOf result.halt).1
      standardOutput := []
      standardError := diagnostics settings result
      files := opened.set location (.file (bytesOf result.output)) }

/-- The outcome of a request. -/
def answer (fs : FileSystem) : Request → Report
  | .help => { ending := .status 0, standardOutput := help, standardError := [], files := fs }
  | .misuse cause =>
    { ending := .status 2
      standardOutput := []
      standardError :=
        usage ++ (program : Text) ++ (": error: " : Text) ++ cause.message ++ ("\n" : Text)
      files := fs }
  | .extract path settings =>
    if settings.output.isEmpty then extractToOutput fs path settings
    else extractToFile fs path settings

/-- The outcome of a command line. -/
def run (fs : FileSystem) (args : List Text) : Report := answer fs (Request.read args)

end Phrasebook.Command
