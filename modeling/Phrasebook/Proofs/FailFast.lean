import Phrasebook.Proofs.Endings

/-!
# Phrasebook — stopping at the first path that cannot be read

A command line may ask the program to stop at the first path that cannot be read, instead of passing over
it. Nothing else may change. Both runs visit the same paths, and they take the same from each of them up to
the first trouble; so what that trouble is decides how the two compare. If a path cannot be read, one run
stops there and the other goes on, perhaps to more trouble. If a file cannot be parsed, both end there. If
there is none, both write their template, which may still fail, but then it fails for both.

A visit is taken in one of three ways, whether the collection is to stop or not (`Extraction.takes`), and
the comparison of two collections follows from that by induction over the visits.

Main results:

* `Extraction.takes` — what a collection does with a visit;
* `Extraction.run_stopping_of_unreadable`, `Extraction.run_stopping_of_not_unreadable` — two extractions;
* `Command.Request.read_failFast` — the same command line with one more option;
* `Command.failFast_against_plain` — two command lines.
-/

namespace Phrasebook

namespace Extraction

/-- The same extraction, told whether to stop at the first path that cannot be read. -/
def stopping (x : Extraction) (stop : Bool) : Extraction := { x with failFast := stop }

/-- What can be wrong with a visit. -/
inductive Trouble where
  /-- The path cannot be read. -/
  | unreadable (path : Text) (fault : Fault)
  /-- The file cannot be parsed, or the system does not take its path. -/
  | fatal (error : Error)
deriving DecidableEq

def trouble? (x : Extraction) (disk : Disk) : Visit → Option Trouble
  | .skipped _ => none
  | .unreadable path fault => some (.unreadable path fault)
  | .found path =>
    match readSource disk path with
    | .error (.file _ fault) => some (.unreadable path fault)
    | .error error => some (.fatal error)
    | .ok text =>
      match x.parse { path, text } with
      | .ok _ => none
      | .error error => some (.fatal error)

/-- The first trouble of an extraction, in the order of the walk. A path that cannot be looked at ends it
before there is any. -/
def firstTrouble? (x : Extraction) (disk : Disk) (depth : Nat) (path : Text) : Option Trouble :=
  match Path.check (Path.normalize path) with
  | .error _ => none
  | .ok () => (Walk.visits disk x.registry.covers depth (Path.normalize path)).findSome? (x.trouble? disk)

/-! ## Visits -/

/-- What a collection does with a visit: it adds messages and goes on; or it reports a path that cannot be
read, and stops if it is to; or it ends. All other events are no errors. -/
inductive Takes (x : Extraction) (disk : Disk) (visit : Visit) : Prop
  | passes (events : List Event) (hquiet : ∀ e ∈ events, e.level ≠ .error) (found : List Message)
      (htrouble : x.trouble? disk visit = none)
      (hstep : ∀ stop catalog rest, (x.stopping stop).collectVisits disk catalog (visit :: rest) =
        ((x.stopping stop).collectVisits disk (catalog.addAll found) rest).after events)
  | reports (events : List Event) (hquiet : ∀ e ∈ events, e.level ≠ .error) (path : Text) (fault : Fault)
      (htrouble : x.trouble? disk visit = some (.unreadable path fault))
      (hstep : ∀ stop catalog rest, (x.stopping stop).collectVisits disk catalog (visit :: rest) =
        if stop then { log := events ++ [.unreadable path fault], catalog, halt := some .stopped }
        else ((x.stopping stop).collectVisits disk catalog rest).after (events ++ [.unreadable path fault]))
  | ends (events : List Event) (hquiet : ∀ e ∈ events, e.level ≠ .error) (error : Error)
      (htrouble : x.trouble? disk visit = some (.fatal error))
      (hstep : ∀ stop catalog rest, (x.stopping stop).collectVisits disk catalog (visit :: rest) =
        { log := events, catalog, halt := some (.failed error) })

section

variable {x : Extraction} {disk : Disk}

theorem quiet_log_messages (x : Extraction) (disk : Disk) (path : Text) :
    ∀ e ∈ (x.messages disk path).log, e.level ≠ .error := by
  rw [messages]
  split <;> simp [Event.level]

theorem collectVisits_of_failed {path : Text} {error : Error} (h : (x.messages disk path).result = .error error)
    (hfault : ∀ p fault, error ≠ .file p fault) (catalog : Catalog) (rest : List Visit) :
    x.collectVisits disk catalog (.found path :: rest) =
      { log := (x.messages disk path).log, catalog, halt := some (.failed error) } := by
  rw [collectVisits]
  cases error with
  | file p fault => exact absurd rfl (hfault p fault)
  | _ => simp only [h]

/-- A file that is found takes one of the three ways: it gives its messages, it cannot be read, or it ends the
collection with an error of its own. -/
theorem takes_found (path : Text) : Takes x disk (.found path) := by
  cases hread : readSource disk path with
  | ok text =>
    -- the file can be read, and then parsed or not
    have hmessages := messages_of_parse (x := x) hread
    rcases x.parse_result { path, text } with ⟨root, hparse, -⟩ | ⟨error, hparse, hfault⟩
    · have htrouble : x.trouble? disk (.found path) = none := by simp only [trouble?, hread, hparse]
      rw [hparse] at hmessages
      refine .passes _ (quiet_log_messages x disk path) (x.messagesOf { path, text }) htrouble ?_
      intro stop catalog rest
      -- the messages of a source do not depend on whether the collection is to stop
      have hsame : ((x.stopping stop).messages disk path).result = .ok (x.messagesOf { path, text }) := hmessages
      rw [collectVisits]
      simp only [hsame]
      rfl
    · have htrouble : x.trouble? disk (.found path) = some (.fatal error) := by
        simp only [trouble?, hread, hparse]
      rw [hparse] at hmessages
      exact .ends _ (quiet_log_messages x disk path) error htrouble
        fun stop => collectVisits_of_failed (x := x.stopping stop) hmessages hfault
  | error error =>
    have hmessages : (x.messages disk path).result = .error error := by
      rw [messages, hread]
      rfl
    -- only a fault of the file itself is reported and passed over
    by_cases hfault : ∃ p fault, error = .file p fault
    · obtain ⟨p, fault, rfl⟩ := hfault
      have htrouble : x.trouble? disk (.found path) = some (.unreadable path fault) := by
        simp only [trouble?, hread]
      refine .reports _ (quiet_log_messages x disk path) path fault htrouble ?_
      intro stop catalog rest
      have hsame : ((x.stopping stop).messages disk path).result = .error (.file p fault) := hmessages
      rw [collectVisits]
      simp only [hsame]
      rfl
    · have hfault' : ∀ p fault, error ≠ .file p fault := fun p fault h => hfault ⟨p, fault, h⟩
      have htrouble : x.trouble? disk (.found path) = some (.fatal error) := by
        simp only [trouble?, hread]
      exact .ends _ (quiet_log_messages x disk path) error htrouble
        fun stop => collectVisits_of_failed (x := x.stopping stop) hmessages hfault'

/-- **Step.** Every visit is taken in one of these ways. -/
theorem takes (x : Extraction) (disk : Disk) (visit : Visit) : Takes x disk visit := by
  cases visit with
  | skipped path => exact .passes [.skipped path] (by simp [Event.level]) [] rfl fun _ _ _ => rfl
  | unreadable path fault => exact .reports [] (by simp) path fault rfl fun _ _ _ => rfl
  | found path => exact takes_found path

/-! ## Collections and extractions -/

/-- **Run.** Collections that meet no path that cannot be read before they end are the same. -/
theorem collectVisits_stopping_of_not_unreadable {visits : List Visit}
    (h : ∀ p fault, visits.findSome? (x.trouble? disk) ≠ some (.unreadable p fault)) (catalog : Catalog) :
    (x.stopping true).collectVisits disk catalog visits = (x.stopping false).collectVisits disk catalog visits ∧
    ∀ e ∈ ((x.stopping false).collectVisits disk catalog visits).log, e.level ≠ .error := by
  induction visits generalizing catalog with
  | nil => exact ⟨rfl, by simp [collectVisits]⟩
  | cons visit visits ih =>
    rw [List.findSome?_cons] at h
    cases takes x disk visit with
    | passes events hquiet found htrouble hstep =>
      -- the visit is passed in the same way, so the first trouble comes later
      rw [htrouble] at h
      obtain ⟨hsame, hrest⟩ := ih h (catalog.addAll found)
      rw [hstep, hstep, hsame]
      exact ⟨rfl, List.forall_mem_append.mpr ⟨hquiet, hrest⟩⟩
    | reports events hquiet path fault htrouble hstep =>
      rw [htrouble] at h
      -- this would be the first path that cannot be read
      exact absurd rfl (h path fault)
    | ends events hquiet error htrouble hstep =>
      rw [hstep, hstep]
      exact ⟨rfl, hquiet⟩

/-- **Run.** If the first trouble is a path that cannot be read, a collection that is to stop does so, with
no other error before, and one that is not reports the path too. -/
theorem collectVisits_stopping_of_unreadable {visits : List Visit} {p : Text} {fault : Fault}
    (h : visits.findSome? (x.trouble? disk) = some (.unreadable p fault)) (catalog : Catalog) :
    ∃ before reached, (∀ e ∈ before, e.level ≠ .error) ∧
      (x.stopping true).collectVisits disk catalog visits =
        { log := before ++ [.unreadable p fault], catalog := reached, halt := some .stopped } ∧
      .unreadable p fault ∈ ((x.stopping false).collectVisits disk catalog visits).log := by
  induction visits generalizing catalog with
  | nil => cases h
  | cons visit visits ih =>
    rw [List.findSome?_cons] at h
    cases takes x disk visit with
    | passes events hquiet found htrouble hstep =>
      rw [htrouble] at h
      obtain ⟨before, reached, hbefore, hstop, hevent⟩ := ih h (catalog.addAll found)
      refine ⟨events ++ before, reached, List.forall_mem_append.mpr ⟨hquiet, hbefore⟩, ?_, ?_⟩
      · rw [hstep, hstop, Collected.after, List.append_assoc]
      · rw [hstep]
        exact List.mem_append_right _ hevent
    | reports events hquiet path fault' htrouble hstep =>
      -- this is the path: here the two collections part
      rw [htrouble] at h
      cases h
      refine ⟨events, catalog, hquiet, ?_, ?_⟩
      · rw [hstep, if_pos rfl]
      · rw [hstep, if_neg Bool.false_ne_true]
        exact List.mem_append_left _ (List.mem_append_right _ List.mem_cons_self)
    | ends events hquiet error htrouble hstep =>
      rw [htrouble] at h
      cases h

variable {depth : Nat} {path : Text}

/-- Behind the events of the collection there is at most the one that announces the template. -/
theorem mem_log_run {e : Event} :
    e ∈ (x.run disk depth path).log ↔ e ∈ (x.collect disk depth path .empty).log ∨
      (x.collect disk depth path .empty).halt = none ∧
        e = .writing (x.collect disk depth path .empty).catalog.size := by
  rw [run]
  cases (x.collect disk depth path .empty).halt with
  | some halt => simp
  | none => simp

/-- A run that meets no path that cannot be read before it ends does not depend on whether it is to stop at one.
-/
theorem run_stopping_of_not_unreadable
    (h : ∀ p fault, x.firstTrouble? disk depth path ≠ some (.unreadable p fault)) :
    (x.stopping true).run disk depth path = (x.stopping false).run disk depth path ∧
    ∀ e ∈ ((x.stopping false).run disk depth path).log, e.level ≠ .error := by
  -- either the path itself is refused, in both runs alike, or the visits are collected
  have hcollect :
      (x.stopping true).collect disk depth path .empty = (x.stopping false).collect disk depth path .empty ∧
      ∀ e ∈ ((x.stopping false).collect disk depth path .empty).log, e.level ≠ .error := by
    rw [firstTrouble?] at h
    rw [collect, collect]
    cases hcheck : Path.check (Path.normalize path) with
    | error error => exact ⟨rfl, by simp⟩
    | ok _ =>
      rw [hcheck] at h
      exact collectVisits_stopping_of_not_unreadable h .empty
  obtain ⟨hsame, hquiet⟩ := hcollect
  refine ⟨by rw [run, run, hsame], fun e he => ?_⟩
  -- beside what was collected, only the last line of the log is new
  rcases mem_log_run.mp he with hcollected | ⟨-, rfl⟩
  · exact hquiet e hcollected
  · simp [Event.level]

/-- Where the first trouble is a path that cannot be read, the run that is to stop there reports it last and
writes the header alone; the other run reports it too. -/
theorem run_stopping_of_unreadable {p : Text} {fault : Fault}
    (h : x.firstTrouble? disk depth path = some (.unreadable p fault)) :
    (∃ before, (∀ e ∈ before, e.level ≠ .error) ∧
      ((x.stopping true).run disk depth path).log = before ++ [.unreadable p fault]) ∧
    ((x.stopping true).run disk depth path).output = Template.header ∧
    ((x.stopping true).run disk depth path).halt = some .stopped ∧
    .unreadable p fault ∈ ((x.stopping false).run disk depth path).log := by
  rw [firstTrouble?] at h
  cases hcheck : Path.check (Path.normalize path) with
  | error error =>
    rw [hcheck] at h
    cases h
  | ok _ =>
    rw [hcheck] at h
    -- the collection stops at the path, with quiet events before it
    obtain ⟨before, reached, hbefore, hstop, hevent⟩ := collectVisits_stopping_of_unreadable h .empty
    -- both runs collect the same visits
    have hcollect (stop : Bool) : (x.stopping stop).collect disk depth path .empty =
        (x.stopping stop).collectVisits disk .empty
          (Walk.visits disk x.registry.covers depth (Path.normalize path)) := by
      rw [collect, hcheck]
      rfl
    have hrun : (x.stopping true).run disk depth path =
        { log := before ++ [.unreadable p fault], output := Template.header, catalog := reached,
          halt := some .stopped } := by
      rw [run, hcollect, hstop]
    rw [hrun]
    refine ⟨⟨before, hbefore, rfl⟩, rfl, rfl, ?_⟩
    rw [← hcollect] at hevent
    exact mem_log_run.mpr (.inl hevent)

/-- An extraction that is not to stop tells whether it would have stopped. -/
theorem not_unreadable_iff :
    (∀ p fault, .unreadable p fault ∉ ((x.stopping false).run disk depth path).log) ↔
    ∀ p fault, x.firstTrouble? disk depth path ≠ some (.unreadable p fault) := by
  constructor
  · intro hlog p fault hfirst
    exact hlog p fault (run_stopping_of_unreadable hfirst).2.2.2
  · intro hfirst p fault hevent
    exact (run_stopping_of_not_unreadable hfirst).2 _ hevent rfl

/-- An extraction that comes to its end has written its catalog. -/
theorem output_of_halt_eq_none (h : (x.run disk depth path).halt = none) :
    (x.run disk depth path).output =
      Template.header ++ (Template.write (x.run disk depth path).catalog.entries).text := by
  rw [run] at h ⊢
  cases hhalt : (x.collect disk depth path .empty).halt with
  | some halt =>
    rw [hhalt] at h
    cases h
  | none => rfl

end

end Extraction

/-! ## Command lines -/

namespace Command

/-- The same settings, but to stop at the first path that cannot be read. -/
def Settings.fast (settings : Settings) : Settings := { settings with failFast := true }

namespace Request

def fast : Request → Request
  | .help => .help
  | .misuse cause => .misuse cause
  | .extract path settings => .extract path settings.fast

/-- The same words read, but to stop at the first path that cannot be read. -/
def fastRead : Except Request Settings → Except Request Settings
  | .ok settings => .ok settings.fast
  | .error request => .error request.fast

theorem apply_fast (settings : Settings) (flag : Flag) (value : Text) :
    apply settings.fast flag value = fastRead (apply settings flag value) := by
  cases flag with
  | logLevel =>
    unfold apply
    cases Level.all.find? fun level => (level.name : Text) == value <;> rfl
  | _ => rfl

theorem applyAll_fast (settings : Settings) (flags : List (Flag × Text)) :
    applyAll settings.fast flags = fastRead (applyAll settings flags) := by
  induction flags generalizing settings with
  | nil => rfl
  | cons first rest ih =>
    obtain ⟨flag, value⟩ := first
    rw [applyAll, applyAll, apply_fast]
    cases apply settings flag value with
    | error request => rfl
    | ok applied => exact ih applied

/-- No word is read differently because the program is to stop early. -/
theorem readWords_fast (settings : Settings) (used : Bool) (words : List Word) :
    readWords settings.fast used words = fastRead (readWords settings used words) := by
  induction words generalizing settings used with
  | nil => rfl
  | cons word rest ih =>
    unfold readWords
    -- words behind a divider are read as they are, with or without the flag
    split
    · exact ih settings false
    · cases word with
      | operand text =>
        obtain ⟨path, markers, output, level, failFast, extras⟩ := settings
        cases path with
        | none => exact ih { path := some text, markers, output, level, failFast, extras } _
        | some first => exact ih { path := some first, markers, output, level, failFast, extras := extras ++ [text] } _
      | divider =>
        obtain ⟨path, markers, output, level, failFast, extras⟩ := settings
        have hkept (path : Option Text) := ih
          { path, markers, output, level, failFast, extras := extras ++ [Word.dividerText] } false
        cases path with
        | some first => exact hkept (some first)
        | none =>
          dsimp only [Settings.fast]
          cases value? rest with
          | none => exact hkept none
          | some text => exact ih { path := some text, markers, output, level, failFast, extras } true
      | unknown text => exact ih { settings with extras := settings.extras ++ [text] } _
      | option flag attached =>
        dsimp only
        -- the effects of an option do not look at the settings
        cases effects (value? rest) flag attached with
        | error cause => rfl
        | ok found =>
          dsimp only
          rw [applyAll_fast]
          cases applyAll settings found.flags with
          | error request => rfl
          | ok applied => exact ih { applied with extras := applied.extras ++ found.left } _

/-- **One more option** in front of a command line changes nothing else of what it asks for. -/
theorem read_failFast (args : List Text) : read ("--fail-fast" :: args) = (read args).fast := by
  have hclassify : Word.classifyAll ("--fail-fast" :: args) =
      (Word.classifyAll args).map (.option .failFast .nothing :: ·) := by
    rw [Word.classifyAll, if_neg (by decide)]
    cases Word.classifyAll args <;> rfl
  rw [read, read, hclassify]
  cases Word.classifyAll args with
  | error cause => rfl
  | ok words =>
    -- the option is read first, and leaves the settings of an empty command line as they are otherwise
    have hfirst : readWords {} false (.option .failFast .nothing :: words) =
        fastRead (readWords {} false words) := readWords_fast {} false words
    dsimp only [Except.map]
    rw [hfirst]
    cases readWords {} false words with
    | error request => rfl
    | ok settings =>
      obtain ⟨path, markers, output, level, failFast, extras⟩ := settings
      cases path with
      | none => rfl
      | some path => cases extras <;> rfl

end Request

/-- A report after which a text, and nothing else, is written to standard output, or to the output file. -/
def Writes (fs : FileSystem) (output : Text) (report : Report) (text : Text) : Prop :=
  (report.standardOutput, report.files) = delivered fs output text

theorem writes_run {fs opened : FileSystem} {args : List Text} {path : Text} {settings : Settings}
    (hread : Request.read args = .extract path settings) (hopen : scanned? fs settings = .ok opened) :
    Writes fs settings.output (run fs args) (runOn opened path settings).output := by
  rw [run_eq_of_scanned? hread hopen]
  rfl

theorem endingOf_eq_zero_iff {halt : Option Halt} : (endingOf halt).1 = .status 0 ↔ halt = none := by
  cases halt with
  | none => simp [endingOf]
  | some halt =>
    cases halt with
    | stopped => simp [endingOf]
    | failed error =>
      rw [endingOf]
      split <;> simp

theorem logText_append (level : Level) (log more : List Event) :
    logText level (log ++ more) = logText level log ++ logText level more := by
  unfold logText
  rw [List.filter_append, List.flatMap_append]

/-- Errors are shown at every level. -/
theorem logText_unreadable (level : Level) (p : Text) (fault : Fault) :
    logText level [.unreadable p fault] = (Event.unreadable p fault).line ++ ("\n" : Text) := by
  cases level <;> simp [logText, Event.isShown, Event.level, Level.rank]

section

variable {fs opened : FileSystem} {args fastArgs : List Text} {path : Text} {settings : Settings}

theorem runOn_eq_run_stopping (hplain : settings.failFast = false) : runOn opened path settings =
    (settings.extraction.stopping false).run opened.disk (Walk.enough opened) path := by
  have hextraction : settings.extraction = settings.extraction.stopping false := by
    unfold Settings.extraction Extraction.stopping
    rw [hplain]
  rw [runOn, ← hextraction]

/-- The report of a program that stops at a path that cannot be read. -/
theorem run_of_unreadable (hfast : Request.read fastArgs = .extract path settings.fast)
    (hopen : scanned? fs settings = .ok opened) {p : Text} {fault : Fault}
    (h : settings.extraction.firstTrouble? opened.disk (Walk.enough opened) path = some (.unreadable p fault)) :
    (run fs fastArgs).ending = .status 1 ∧ Writes fs settings.output (run fs fastArgs) Template.header ∧
    ∃ before, (∀ e ∈ before, e.level ≠ .error) ∧ (run fs fastArgs).standardError =
      logText settings.level before ++ ((Event.unreadable p fault).line ++ ("\n" : Text)) := by
  obtain ⟨⟨before, hbefore, hlog⟩, houtput, hhalt, -⟩ := Extraction.run_stopping_of_unreadable h
  -- the settings that stop early give the extraction that stops early
  have hstopped : runOn opened path settings.fast =
      (settings.extraction.stopping true).run opened.disk (Walk.enough opened) path := rfl
  rw [← hstopped] at hlog houtput hhalt
  have hscanned : scanned? fs settings.fast = .ok opened := hopen
  -- what the command shows is read off its result
  obtain ⟨hending, hshown⟩ := run_of_scanned? hfast hscanned
  have hwrites := writes_run hfast hscanned
  rw [houtput] at hwrites
  refine ⟨?_, hwrites, before, hbefore, ?_⟩
  · rw [hending, hhalt, endingOf]
  · rw [hshown, diagnostics, hlog, hhalt, endingOf, List.append_nil, logText_append, logText_unreadable]
    rfl

/-- Without such a path, the two reports are the same. -/
theorem run_eq_of_not_unreadable (hread : Request.read args = .extract path settings)
    (hplain : settings.failFast = false) (hfast : Request.read fastArgs = .extract path settings.fast)
    (hopen : scanned? fs settings = .ok opened) (h : ∀ p fault,
      settings.extraction.firstTrouble? opened.disk (Walk.enough opened) path ≠ some (.unreadable p fault)) :
    run fs fastArgs = run fs args := by
  have hsame : runOn opened path settings.fast = runOn opened path settings := by
    rw [runOn_eq_run_stopping hplain]
    exact (Extraction.run_stopping_of_not_unreadable h).1
  have hscanned : scanned? fs settings.fast = .ok opened := hopen
  rw [run_eq_of_scanned? hread hopen, run_eq_of_scanned? hfast hscanned, hsame]
  rfl

end

/-- **Stopping at the first path that cannot be read**, against passing over it. Let a command line ask for
an extraction that passes over such paths, let another one ask for the same extraction but to stop, and let
the output file be one that can be opened, if there is any. The option can be put in front of any command
line.

The program that stops ends with status 0 just if the other one does and reports no path that cannot be
read, and then both write the text of the same catalog. If the first trouble in the order of the walk is a
path that cannot be read, and not a file that cannot be parsed, it ends with status 1, the line for that
path is the last one it shows and the only one of an error, and nothing but the header is written. In all
other cases the two reports are the same. -/
theorem failFast_against_plain (fs opened : FileSystem) (args fastArgs : List Text) (path : Text)
    (settings : Settings) (hread : Request.read args = .extract path settings)
    (hplain : settings.failFast = false) (hfast : Request.read fastArgs = .extract path settings.fast)
    (hopen : scanned? fs settings = .ok opened) :
    let plain := run fs args
    let fast := run fs fastArgs
    let result := runOn opened path settings
    let first := settings.extraction.firstTrouble? opened.disk (Walk.enough opened) path
    Request.read ("--fail-fast" :: args) = .extract path settings.fast ∧
    plain.standardError = diagnostics settings result ∧
    (fast.ending = .status 0 ↔ plain.ending = .status 0 ∧ ∀ p fault, .unreadable p fault ∉ result.log) ∧
    (fast.ending = .status 0 →
      let text := Template.header ++ (Template.write result.catalog.entries).text
      Writes fs settings.output fast text ∧ Writes fs settings.output plain text) ∧
    (∀ p fault, first = some (.unreadable p fault) →
      fast.ending = .status 1 ∧ Writes fs settings.output fast Template.header ∧
      ∃ before, (∀ e ∈ before, e.level ≠ .error) ∧ fast.standardError =
        logText settings.level before ++ ((Event.unreadable p fault).line ++ ("\n" : Text))) ∧
    ((∀ p fault, first ≠ some (.unreadable p fault)) → fast = plain) := by
  intro plain fast result first
  have hoption : Request.read ("--fail-fast" :: args) = .extract path settings.fast := by
    rw [Request.read_failFast, hread, Request.fast]
  obtain ⟨hending, hshown⟩ := run_of_scanned? hread hopen
  have hlog : (∀ p fault, .unreadable p fault ∉ result.log) ↔ ∀ p fault, first ≠ some (.unreadable p fault) := by
    show (∀ p fault, _ ∉ (runOn opened path settings).log) ↔ _
    rw [runOn_eq_run_stopping hplain]
    exact Extraction.not_unreadable_iff
  have hsame : (∀ p fault, first ≠ some (.unreadable p fault)) → fast = plain :=
    run_eq_of_not_unreadable hread hplain hfast hopen
  have hzero : fast.ending = .status 0 → ∀ p fault, first ≠ some (.unreadable p fault) := by
    intro hstatus p fault hfirst
    have hone : fast.ending = .status 1 := (run_of_unreadable hfast hopen hfirst).1
    rw [hone] at hstatus
    cases hstatus
  refine ⟨hoption, hshown, ⟨?_, ?_⟩, ?_, fun p fault => run_of_unreadable hfast hopen, hsame⟩
  · intro hstatus
    have hnone := hzero hstatus
    rw [hsame hnone] at hstatus
    exact ⟨hstatus, hlog.mpr hnone⟩
  · rintro ⟨hstatus, hquiet⟩
    rw [hsame (hlog.mp hquiet)]
    exact hstatus
  · intro hstatus text
    have hequal : fast = plain := hsame (hzero hstatus)
    rw [hequal] at hstatus ⊢
    -- a status of zero means that nothing ended the extraction, the template included
    have hhalt : result.halt = none := endingOf_eq_zero_iff.mp (hending.symm.trans hstatus)
    have houtput : result.output = text := Extraction.output_of_halt_eq_none hhalt
    have hwrites : Writes fs settings.output plain text := houtput ▸ writes_run hread hopen
    exact ⟨hwrites, hwrites⟩

/-- A link that leads nowhere, and a script behind it. -/
def linkBeforeScript : FileSystem where
  items := [
    (["src"], .directory),
    (["src", "a.js"], .link "gone"),
    (["src", "b.js"], .file ("__('x')".toList.flatMap Utf8.encodeChar))]

/-- Without the option the script is extracted; with it only the header is written, and one error is reported. -/
theorem failFast_against_plain_linkBeforeScript :
    let plain := run linkBeforeScript ["-mi18n", "--marker", "__", "src"]
    let fast := run linkBeforeScript ["src", "-mi18n", "--fail", "--marker", "__"]
    plain.ending = .status 0 ∧ plain.standardOutput ≠ Template.header ∧ fast.ending = .status 1 ∧
    fast.standardOutput = Template.header ∧
    ∃ before, (∀ e ∈ before, e.level ≠ .error) ∧ fast.standardError = logText .warning before ++
      ((Event.unreadable "src/a.js" .notFound).line ++ ("\n" : Text)) := by
  intro plain fast
  let settings : Settings := { path := some "src", markers := ["i18n", "__"] }
  have hfirst : settings.extraction.firstTrouble? linkBeforeScript.disk (Walk.enough linkBeforeScript) "src" =
      some (.unreadable "src/a.js" .notFound) := by decide +kernel
  obtain ⟨-, -, -, -, hunreadable, -⟩ := failFast_against_plain linkBeforeScript linkBeforeScript
    ["-mi18n", "--marker", "__", "src"] ["src", "-mi18n", "--fail", "--marker", "__"] "src" settings
    rfl rfl rfl rfl
  obtain ⟨hending, hwrites, hshown⟩ := hunreadable "src/a.js" .notFound hfirst
  exact ⟨by decide +kernel, by decide +kernel, hending, congrArg Prod.fst hwrites, hshown⟩

end Command

end Phrasebook
