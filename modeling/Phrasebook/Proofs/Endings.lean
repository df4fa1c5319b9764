import Phrasebook.Command.Report
import Phrasebook.Proofs.Calls
import Phrasebook.Proofs.FirstErrors
import Phrasebook.Proofs.Lines
import Phrasebook.Proofs.Scripts

/-!
# Phrasebook — how a command line ends

A command line should end with status 0, or with a message and status 1: for a script outside the grammar,
for a marked call that does not start with a text, or, if it is asked to, at the first path that cannot be
read. Other errors are not reported, and most of them cannot occur. The bytes of a file are decoded without
surrogates, and the script of a page adds none; a walk finds only files with a registered extension, and
only paths that the system takes, also below the directory in which the output file was just made.

Two errors remain. The value of an escape in braces may lie beyond the last code point, in any literal of a
script, and the program does not look at it before it makes a code point of it. And an integer that a marked
call starts with may have more digits than can be shown in the message for that call.

Main results:

* `Source.error_of_tree` — where parsing fails;
* `Extraction.halt_run` — why an extraction ends early;
* `FileSystem.IsUsable.listsUsable_of_open` — the names in a file system with an output file;
* `Command.ending_of_run` — how a command line ends;
* `Command.ending_of_beyondLast` — a literal without value.
-/

namespace Phrasebook

/-! ## Literals without value -/

namespace Escape

/-- The value of pieces fails only at the number of an escape that is no code point. -/
theorem number_of_values_error {ps : List Piece} {failure : Failure} (h : values ps = .error failure) :
    ∃ n, .number n ∈ ps ∧ 0x10FFFF < n := by
  induction ps generalizing failure with
  | nil => cases h
  | cons piece rest ih =>
    rw [values] at h
    cases hvalue : piece.value with
    | ok value =>
      -- the first piece has a value, so that a later one has none
      rw [hvalue] at h
      cases hrest : values rest with
      | ok others =>
        rw [hrest] at h
        cases h
      | error later =>
        obtain ⟨n, hn, hlarge⟩ := ih hrest
        exact ⟨n, List.mem_cons_of_mem _ hn, hlarge⟩
    | error first =>
      cases piece with
      | plain c => cases hvalue
      | nothing => cases hvalue
      | number n =>
        refine ⟨n, List.mem_cons_self, ?_⟩
        rw [Piece.value] at hvalue
        split at hvalue
        · cases hvalue
        · next hnone =>
          simp only [CodePoint.ofNat?, dite_eq_right_iff, reduceCtorEq, imp_false] at hnone
          omega

theorem number_of_unescape_error {body : Text} {failure : Failure} (h : unescape body = .error failure) :
    ∃ n, .number n ∈ pieces body ∧ 0x10FFFF < n := by
  rw [unescape] at h
  cases hvalues : values (pieces body) with
  | ok value =>
    rw [hvalues] at h
    cases h
  | error failure' => exact number_of_values_error hvalues

end Escape

/-! ## Scripts of sources -/

/-- The code points of the script of a page are those of the page, line feeds and semicolons. -/
theorem Page.mem_code {page : Text} {c : CodePoint} (h : c ∈ code page) :
    c ∈ page ∨ c = .ofChar '\n' ∨ c = .ofChar ';' := by
  obtain ⟨found, hfound⟩ := exists_finds 0 page
  have hpage : (split page).page = page := page_splitFrom hfound []
  rw [code, Parts.code] at h
  rcases List.mem_append.mp h with hkept | htail
  · obtain ⟨⟨gap, body⟩, hmem, hc⟩ := List.mem_flatMap.mp hkept
    rcases List.mem_append.mp hc with hblank | hbody
    · exact .inr (mem_blank hblank)
    · left
      rw [← hpage, Parts.page]
      refine List.mem_append_left _ (List.mem_flatMap.mpr ⟨(gap, body), hmem, ?_⟩)
      exact List.mem_append_right _ hbody
  · exact .inr (mem_blank htail)

theorem Text.exists_ofChars {t : Text} (h : ∀ c ∈ t, ∃ ch, c = .ofChar ch) : ∃ cs, t = ofChars cs := by
  induction t with
  | nil => exact ⟨[], rfl⟩
  | cons c rest ih =>
    obtain ⟨⟨ch, rfl⟩, hrest⟩ := List.forall_mem_cons.mp h
    obtain ⟨cs, rfl⟩ := ih hrest
    exact ⟨ch :: cs, rfl⟩

theorem Page.exists_code_ofChars (cs : List Char) : ∃ script, code (Text.ofChars cs) = Text.ofChars script := by
  refine Text.exists_ofChars fun c hc => ?_
  rcases mem_code hc with hpage | rfl | rfl
  · obtain ⟨ch, -, rfl⟩ := List.mem_map.mp hpage
    exact ⟨ch, rfl⟩
  · exact ⟨'\n', rfl⟩
  · exact ⟨';', rfl⟩

/-- The standard transforms refuse nothing, and make scripts without surrogates. -/
theorem Registry.exists_ofChars_of_find? {extension : Text} {transform : Transform}
    (h : standard.find? extension = some transform) (cs : List Char) :
    ∃ script, transform (Text.ofChars cs) = .ok (Text.ofChars script) := by
  -- of the six extensions, two have the transform for pages
  have hstandard : transform = script ∨ transform = page := by
    obtain ⟨before, after, hregistry, -⟩ := List.lookup_eq_some_iff.mp h
    have hmem : (extension, transform) ∈ standard := by
      rw [hregistry]
      simp
    simp only [standard, List.mem_cons, Prod.mk.injEq, List.not_mem_nil, or_false] at hmem
    rcases hmem with ⟨-, h⟩ | ⟨-, h⟩ | ⟨-, h⟩ | ⟨-, h⟩ | ⟨-, h⟩ | ⟨-, h⟩
    · exact .inl h
    · exact .inr h
    · exact .inr h
    · exact .inl h
    · exact .inl h
    · exact .inl h
  rcases hstandard with rfl | rfl
  · exact ⟨cs, rfl⟩
  · obtain ⟨script, hscript⟩ := Page.exists_code_ofChars cs
    refine ⟨script, ?_⟩
    rw [← hscript]
    rfl

namespace Source

theorem exists_code_standard {path : Text} (hpath : Registry.standard.covers (Path.extension path) = true)
    (cs : List Char) : ∃ script, code Registry.standard path (Text.ofChars cs) = .ok (Text.ofChars script) := by
  obtain ⟨transform, hfind⟩ := Option.isSome_iff_exists.mp hpath
  obtain ⟨script, hscript⟩ := Registry.exists_ofChars_of_find? hfind cs
  refine ⟨script, ?_⟩
  rw [code, hfind]
  show (transform _).mapError _ = _
  rw [hscript]
  rfl

/-- A script has a literal with an escape that is no code point. -/
def HasValueless (script : List Char) : Prop :=
  ∃ t ∈ (Script.parse script).preorder, (t.kind = .stringLiteral ∨ t.kind = .templateString) ∧
    ∃ n, .number n ∈ Escape.pieces (Text.ofChars (t.spelling.drop 1).dropLast) ∧ 0x10FFFF < n

/-- **Where parsing fails**: outside the grammar, or at a literal without value. -/
theorem error_of_tree {path : Text} {script : List Char} {error : Error} (h : tree path script = .error error) :
    (∃ line, error = .outsideGrammar path line) ∨
    (∃ failure, error = .noValue failure) ∧ HasValueless script := by
  rw [tree] at h
  split at h
  · cases h
    exact .inl ⟨_, rfl⟩
  · right
    cases hlower : Script.Lower.lower (Script.parse script) with
    | ok root =>
      rw [hlower] at h
      cases h
    | error failure =>
      rw [hlower] at h
      cases h
      obtain ⟨t, ht, hkind, hvalue⟩ := Script.Lower.unescape_of_lower_error hlower
      exact ⟨⟨failure, rfl⟩, t, ht, hkind, Escape.number_of_unescape_error hvalue⟩

theorem parse_of_code {registry : Registry} {path text : Text} {script : List Char}
    (h : code registry path text = .ok (Text.ofChars script)) : parse registry path text = tree path script := by
  rw [parse, h]
  show characters (Text.ofChars script) >>= tree path = _
  rw [characters, Text.toChars?_ofChars]
  rfl

end Source

/-! ## Extractions -/

/-- Writing ends early only at an entry that cannot be translated. -/
theorem Template.entry_of_write_error {es : List Entry} {error : Error} (h : (write es).error = some error) :
    ∃ e ∈ es, ¬ e.payload.Translatable ∧ error = .ofPayload e.origin e.payload := by
  induction es with
  | nil => cases h
  | cons e es ih =>
    by_cases he : e.payload.Translatable
    · rw [write, block_of_translatable he] at h
      obtain ⟨other, hother, hcause⟩ := ih h
      exact ⟨other, List.mem_cons_of_mem _ hother, hcause⟩
    · rw [write_of_not_translatable he] at h
      cases h
      exact ⟨e, List.mem_cons_self, he, rfl⟩

namespace Extraction

/-- An error that the author of a source can mend: a script outside the grammar, or a marked call that does
not start with a text. -/
inductive Mendable : Error → Prop
  | script (path : Text) (line : Nat) : Mendable (.outsideGrammar path line)
  | payload (origin shown : Text) : Mendable (.notText origin shown)

/-- Why an extraction ends with an error that nobody reports. -/
inductive Unreported (x : Extraction) (disk : Disk) (depth : Nat) (path : Text) : Error → Prop
  /-- The path cannot be encoded. -/
  | path (offset : Nat) (surrogates : Text) (hpath : ¬ Path.Usable path) :
      Unreported x disk depth path (.unencodable offset surrogates)
  /-- A literal in a file has an escape that is no code point. -/
  | literal (file : ReadFile) (hfile : file ∈ x.files disk depth (Path.normalize path)) (script : List Char)
      (hscript : Source.code x.registry file.path file.text = .ok (Text.ofChars script))
      (hvalue : Source.HasValueless script) (failure : Escape.Failure) :
      Unreported x disk depth path (.noValue failure)
  /-- A marked call does not start with a text, but with an integer too long to be shown. -/
  | payload (file : ReadFile) (hfile : file ∈ x.files disk depth (Path.normalize path)) (call : Site)
      (hcall : call ∈ x.calls file) (hlong : call.payload.HoldsLong) :
      Unreported x disk depth path .notShown

/-- How collecting from visits can end: all of it is done; or it stops at a path that cannot be read, if it
is asked to; or a file cannot be parsed. -/
inductive Ends (x : Extraction) (disk : Disk) (visits : List Visit) (collected : Collected) : Prop
  | done (hhalt : collected.halt = none)
  | stopped (hfast : x.failFast = true) (hhalt : collected.halt = some .stopped) (path : Text) (fault : Fault)
      (hevent : .unreadable path fault ∈ collected.log)
  | failed (file : ReadFile) (hfile : file ∈ visits.filterMap (readable? disk)) (error : Error)
      (hparse : x.parse file = .error error) (hhalt : collected.halt = some (.failed error))

/-- The end stays the same with one more visit and more events before it. -/
theorem Ends.after {x : Extraction} {disk : Disk} {visits : List Visit} {collected : Collected}
    (h : Ends x disk visits collected) (visit : Visit) (events : List Event) :
    Ends x disk (visit :: visits) (collected.after events) := by
  cases h with
  | done hhalt => exact .done hhalt
  | stopped hfast hhalt path fault hevent =>
    exact .stopped hfast hhalt path fault (List.mem_append_right _ hevent)
  | failed file hfile error hparse hhalt =>
    refine .failed file ?_ error hparse hhalt
    rw [mem_filterMap_readable?] at hfile ⊢
    exact ⟨List.mem_cons_of_mem _ hfile.1, hfile.2⟩

/-- **Run.** Collecting from usable paths ends in one of these ways. -/
theorem ends_collectVisits (x : Extraction) (disk : Disk) {visits : List Visit}
    (husable : ∀ path, .found path ∈ visits → Path.Usable path) (catalog : Catalog) :
    Ends x disk visits (x.collectVisits disk catalog visits) := by
  induction visits generalizing catalog with
  | nil => exact .done rfl
  | cons visit visits ih =>
    -- what is reported of one path does not change how the later ones end
    have hrest := ih fun path hpath => husable path (List.mem_cons_of_mem _ hpath)
    cases visit with
    | skipped path => exact (hrest catalog).after _ _
    | unreadable path fault =>
      rw [collectVisits]
      split
      · next hfast => exact .stopped hfast rfl path fault (List.mem_singleton_self _)
      · exact (hrest catalog).after _ _
    | found path =>
      rcases x.collectVisits_found disk (husable path List.mem_cons_self) catalog visits with
        -- the file gives messages, or is refused, or cannot be read
        ⟨text, root, -, -, hstep⟩ | ⟨text, error, hread, herror, hstep⟩ | ⟨fault, -, hstep⟩
      · rw [hstep]
        exact (hrest _).after _ _
      · have hfile : (⟨path, text⟩ : ReadFile) ∈ (Visit.found path :: visits).filterMap (readable? disk) :=
          mem_filterMap_readable?.mpr ⟨List.mem_cons_self, hread⟩
        rw [hstep]
        exact .failed _ hfile error herror rfl
      · rw [hstep]
        split
        · next hfast =>
          exact .stopped hfast rfl path fault (List.mem_append_right _ (List.mem_singleton_self _))
        · exact (hrest catalog).after _ _

section

variable {x : Extraction} {disk : Disk} {depth : Nat} {path : Text}

/-- The bytes of a file are decoded to characters. -/
theorem exists_ofChars_of_readSource {p text : Text} (h : readSource disk p = .ok text) :
    ∃ cs, text = Text.ofChars cs := by
  rw [readSource] at h
  cases hcheck : Path.check p with
  | error error =>
    rw [hcheck] at h
    cases h
  | ok _ =>
    cases hbytes : disk.read p with
    | error fault =>
      rw [hcheck, hbytes] at h
      cases h
    | ok bytes =>
      rw [hcheck, hbytes] at h
      cases h
      exact ⟨_, rfl⟩

/-- A file that cannot be parsed is outside the grammar, or has a literal without value. -/
theorem error_of_parse (hx : x.registry = Registry.standard) {file : ReadFile}
    (hfile : file ∈ x.files disk depth (Path.normalize path)) {error : Error} (h : x.parse file = .error error) :
    Mendable error ∨ Unreported x disk depth path error := by
  obtain ⟨hfound, hread⟩ := mem_filterMap_readable?.mp hfile
  -- only files whose extension is registered are found
  obtain ⟨-, hcovers⟩ := Walk.found_induction (P := fun _ => True) (fun _ _ _ _ _ _ => trivial) trivial hfound
  obtain ⟨cs, htext⟩ := exists_ofChars_of_readSource hread
  rw [hx] at hcovers
  obtain ⟨script, hscript⟩ := Source.exists_code_standard hcovers cs
  rw [← htext, ← hx] at hscript
  rw [parse, Source.parse_of_code hscript] at h
  rcases Source.error_of_tree h with ⟨line, rfl⟩ | ⟨⟨failure, rfl⟩, hvalue⟩
  · exact .inl (.script _ _)
  · exact .inr (.literal file hfile script hscript hvalue failure)

/-- A payload that cannot be written is shown, or holds an integer that is too long. -/
theorem error_of_write {error : Error}
    (h : (Template.write (x.collect disk depth path .empty).catalog.entries).error = some error) :
    Mendable error ∨ Unreported x disk depth path error := by
  obtain ⟨e, he, hpayload, rfl⟩ := Template.entry_of_write_error h
  -- the payload is that of a marked call, before and after its placeholders are decoded
  have hcall : ∀ e ∈ (x.collect disk depth path .empty).catalog.entries, e.payload.Translatable ∨
      ∃ file ∈ x.files disk depth (Path.normalize path), ∃ call ∈ x.calls file, e.payload = call.payload := by
    refine forall_payloads_collect (P := fun v => v.Translatable ∨
      ∃ file ∈ x.files disk depth (Path.normalize path), ∃ call ∈ x.calls file, v = call.payload) ?_
    intro file hfile s hs
    obtain ⟨first, rest, hmarked⟩ := marked_of_mem_calls hs
    cases htext : s.startsWithText with
    | true => exact .inl (Message.decoded_translatable (hmarked.startsWithText_iff.mp htext))
    | false =>
      refine .inr ⟨file, hfile, s, hs, ?_⟩
      rw [hmarked.message_eq htext]
      rfl
  obtain ⟨file, hfile, call, hmem, hsame⟩ := (hcall e he).resolve_left hpayload
  rcases Error.ofPayload_cases e.origin e.payload with ⟨shown, -, herror⟩ | ⟨hlong, herror⟩
  · rw [herror]
    exact .inl (.payload _ _)
  · rw [herror]
    rw [hsame] at hlong
    exact .inr (.payload file hfile call hmem hlong)

/-- **Why extractions end early.** -/
theorem halt_run (hx : x.registry = Registry.standard) (hdisk : disk.ListsUsable) (hpath : ∀ c ∈ path, c.val ≠ 0)
    (depth : Nat) :
    (x.run disk depth path).halt = none ∨
    (x.failFast = true ∧ (x.run disk depth path).halt = some .stopped ∧
      ∃ p fault, .unreadable p fault ∈ (x.run disk depth path).log) ∨
    ∃ error, (x.run disk depth path).halt = some (.failed error) ∧
      (Mendable error ∨ Unreported x disk depth path error) := by
  cases hcheck : Path.check (Path.normalize path) with
  | error error =>
    have hhalt : (x.collect disk depth path .empty).halt = some (.failed error) := by
      rw [collect, hcheck]
    obtain ⟨offset, surrogates, rfl⟩ :=
      Path.unencodable_of_check_eq_error (Path.val_ne_zero_of_mem_normalize hpath) hcheck
    refine .inr (.inr ⟨_, (run_of_halt hhalt).2, .inr (.path offset surrogates ?_)⟩)
    intro husable
    rw [Path.check_eq_ok_iff.mpr husable.normalize] at hcheck
    cases hcheck
  | ok _ =>
    have hroot : Path.Usable (Path.normalize path) := Path.check_eq_ok_iff.mp hcheck
    have hcollect : x.collect disk depth path .empty =
        x.collectVisits disk .empty (Walk.visits disk x.registry.covers depth (Path.normalize path)) := by
      rw [collect, hcheck]
    have husable : ∀ p, .found p ∈ Walk.visits disk x.registry.covers depth (Path.normalize path) →
        Path.Usable p := fun p hp => Walk.usable_of_found hdisk hroot hp
    have hends := ends_collectVisits x disk husable .empty
    rw [← hcollect] at hends
    cases hends with
    | done hhalt =>
      -- everything is collected, so that the template decides
      have hwritten : (x.run disk depth path).halt =
          (Template.write (x.collect disk depth path .empty).catalog.entries).error.map .failed := by
        rw [run, hhalt]
      rw [hwritten]
      cases hwrite : (Template.write (x.collect disk depth path .empty).catalog.entries).error with
      | none => exact .inl rfl
      | some error => exact .inr (.inr ⟨error, rfl, error_of_write hwrite⟩)
    | stopped hfast hhalt p fault hevent =>
      refine .inr (.inl ⟨hfast, (run_of_halt hhalt).2, p, fault, ?_⟩)
      rw [run, hhalt]
      exact hevent
    | failed file hfile error hparse hhalt =>
      exact .inr (.inr ⟨error, (run_of_halt hhalt).2, error_of_parse hx hfile hparse⟩)

/-- Whatever an extraction writes can be encoded. -/
theorem encodable_output (x : Extraction) (disk : Disk) (depth : Nat) (path : Text) :
    Template.Encodable (x.run disk depth path).output := by
  have hheader : Template.Encodable Template.header := by decide
  rcases output_run x disk depth path with houtput | houtput
  · rw [houtput]
    exact hheader
  · obtain ⟨written, -, hwritten, htext⟩ := Template.exists_text_write (x.run disk depth path).catalog.entries
    rw [houtput, htext]
    refine Template.encodable_append hheader (Template.encodable_joinLines ?_)
    exact Template.forall_mem_allLines (by decide) fun e he => Template.entryLines_encodable (hwritten e he)

end

end Extraction

/-! ## Output files -/

theorem Path.Usable.components {path : Text} (h : Usable path) : ∀ part ∈ components path, Usable part :=
  fun _ hpart c hc => h c (mem_of_mem_component hpart hc)

namespace FileSystem

/-- A file system whose names can be paths, and so can the targets of its links. -/
structure IsUsable (fs : FileSystem) : Prop where
  names : ∀ item ∈ fs.items, ∀ name ∈ item.1, Path.Usable name
  links : ∀ item ∈ fs.items, ∀ onward, item.2 = .link onward → Path.Usable onward

theorem mem_items_of_link {fs : FileSystem} {location : Location} {onward : Text}
    (h : fs.item? location = some (.link onward)) : (location, .link onward) ∈ fs.items := by
  rw [item?] at h
  split at h
  · cases h
  · obtain ⟨before, after, hitems, -⟩ := List.lookup_eq_some_iff.mp h
    rw [hitems]
    exact List.mem_append_right _ List.mem_cons_self

theorem eq_of_fileName {fs : FileSystem} {directory : Location} {components : List Text} {name : Text}
    (h : fs.fileName directory components = .ok name) : name = (trimEnd components).getLastD Path.dot := by
  unfold fileName at h
  dsimp only at h
  split_ifs at h
  cases h
  rfl

theorem eq_of_writable {fs : FileSystem} {directory result : Location} {name : Text}
    (h : fs.writable directory name = .ok result) : result = directory ++ [name] := by
  unfold writable at h
  dsimp only at h
  split_ifs at h
  · exact (Except.ok.inj h).symm
  · exact (Except.ok.inj h).symm

/-- **Step.** The file that is written has the last name of a path, or a link of that name leads on. -/
theorem target_cases {fs : FileSystem} {links : Nat} {location result : Location} {components : List Text}
    (h : fs.target links location components = .ok result) :
    (∃ directory, result = directory ++ [(trimEnd components).getLastD Path.dot]) ∨
    ∃ fewer directory name onward, links = fewer + 1 ∧ fs.item? (directory ++ [name]) = some (.link onward) ∧
      fs.target fewer (start directory onward) (Path.components onward) = .ok result := by
  unfold FileSystem.target at h
  obtain ⟨directory, -, h⟩ := exists_of_bind_eq_ok h
  obtain ⟨name, hname, h⟩ := exists_of_bind_eq_ok h
  split at h
  · next onward hitem =>
    cases links with
    | zero => cases h
    | succ fewer => exact .inr ⟨fewer, directory, name, onward, rfl, hitem, h⟩
  · exact .inl ⟨directory, by rw [eq_of_writable h, eq_of_fileName hname]⟩

/-- The name that a path ends with is usable if all its components are: it is one of them, or the dot that
stands for the directory. -/
theorem usable_of_last {components : List Text} (hcomponents : ∀ part ∈ components, Path.Usable part)
    (directory : Location) :
    ∀ name ∈ (directory ++ [(trimEnd components).getLastD Path.dot]).getLast?, Path.Usable name := by
  intro name hname
  rw [List.getLast?_concat, Option.mem_some] at hname
  rw [← hname]
  rcases List.mem_cons.mp (List.getLastD_mem_cons (l := trimEnd components) (a := Path.dot)) with hdot | hmem
  · rw [hdot]
    decide
  · apply hcomponents
    rw [trimEnd, List.mem_reverse] at hmem
    exact List.mem_reverse.mp (List.dropWhile_subset _ hmem)

/-- **Run.** However many links are followed, the file that is written has a usable name. -/
theorem IsUsable.usable_of_target {fs : FileSystem} (h : fs.IsUsable) {links : Nat} {location result : Location}
    {components : List Text} (hcomponents : ∀ part ∈ components, Path.Usable part)
    (htarget : fs.target links location components = .ok result) :
    ∀ name ∈ result.getLast?, Path.Usable name := by
  induction links generalizing location components with
  | zero =>
    rcases target_cases htarget with ⟨directory, rfl⟩ | ⟨fewer, -, -, -, hlinks, -⟩
    · exact usable_of_last hcomponents directory
    · cases hlinks
  | succ links ih =>
    rcases target_cases htarget with ⟨directory, rfl⟩ | ⟨fewer, directory, name, onward, hlinks, hitem, honward⟩
    · exact usable_of_last hcomponents directory
    · cases hlinks
      exact ih (h.links _ (mem_items_of_link hitem) onward rfl).components honward

/-- Opening an output file adds no name that cannot be a path. -/
theorem IsUsable.listsUsable_of_open {fs opened : FileSystem} (h : fs.IsUsable) {path : Text}
    (hpath : Path.Usable path) {location : Location} (hopen : fs.openForWriting path = .ok (location, opened)) :
    opened.disk.ListsUsable := by
  obtain ⟨components, hcomponents, hopen⟩ := exists_of_bind_eq_ok hopen
  obtain ⟨target, htarget, hopen⟩ := exists_of_bind_eq_ok hopen
  cases hopen
  have hparts : ∀ part ∈ components, Path.Usable part := by
    rw [components?] at hcomponents
    split at hcomponents
    · cases hcomponents
    · split at hcomponents
      · cases hcomponents
      · cases hcomponents
        exact hpath.components
  refine lists_disk_of_last fun item hitem name hname => ?_
  -- the file that was opened is one of the old ones, or it has the last name of its location
  rcases List.mem_append.mp hitem with hold | hnew
  · exact h.names item (List.mem_of_mem_filter hold) name (List.mem_of_getLast? hname)
  · rw [List.mem_singleton.mp hnew] at hname
    exact h.usable_of_target hparts htarget name hname

end FileSystem

/-! ## Command lines -/

namespace Command

open Extraction (Mendable Unreported)

/-- The file system that an extraction scans, in which the output file is empty. -/
def scanned? (fs : FileSystem) (settings : Settings) : Except Error FileSystem :=
  if settings.output.isEmpty then .ok fs else (openOutput fs settings.output).map Prod.snd

/-- What a run scans still has usable names, also where the output file has been opened in it. -/
theorem listsUsable_of_scanned? {fs opened : FileSystem} {settings : Settings} (hfs : fs.IsUsable)
    (h : scanned? fs settings = .ok opened) : opened.disk.ListsUsable := by
  rw [scanned?] at h
  split at h
  · cases h
    exact FileSystem.listsUsable_disk hfs.names
  -- the output file was opened before the scan
  · rw [openOutput] at h
    cases hcheck : Path.check settings.output with
    | error error =>
      rw [hcheck] at h
      cases h
    | ok _ =>
      cases hopen : fs.openForWriting settings.output with
      | error fault =>
        rw [hcheck, hopen] at h
        cases h
      | ok found =>
        rw [hcheck, hopen] at h
        cases h
        exact hfs.listsUsable_of_open (Path.check_eq_ok_iff.mp hcheck) hopen

/-- Standard output and the files after a text is written: to standard output, or to the output file. -/
def delivered (fs : FileSystem) (output text : Text) : Text × FileSystem :=
  if output.isEmpty then (text, fs)
  else
    match openOutput fs output with
    | .ok (location, opened) => ([], opened.set location (.file (bytesOf text)))
    | .error _ => ([], fs)

/-- The report of an extraction is that of its result. -/
theorem run_eq_of_scanned? {fs opened : FileSystem} {args : List Text} {path : Text} {settings : Settings}
    (hread : Request.read args = .extract path settings) (hopen : scanned? fs settings = .ok opened) :
    let result := runOn opened path settings
    run fs args =
      { ending := (endingOf result.halt).1
        standardOutput := (delivered fs settings.output result.output).1
        standardError := diagnostics settings result
        files := (delivered fs settings.output result.output).2 } := by
  intro result
  rw [run, hread, answer, delivered]
  rw [scanned?] at hopen
  split
  -- without a name for the output the result goes to the standard output
  · next hempty =>
    rw [if_pos hempty] at hopen
    cases hopen
    rfl
  · next hempty =>
    rw [if_neg hempty] at hopen
    rw [extractToFile]
    cases houtput : openOutput fs settings.output with
    | error error =>
      rw [houtput] at hopen
      cases hopen
    | ok found =>
      rw [houtput] at hopen
      cases hopen
      rfl

theorem run_of_scanned? {fs opened : FileSystem} {args : List Text} {path : Text} {settings : Settings}
    (hread : Request.read args = .extract path settings) (hopen : scanned? fs settings = .ok opened) :
    (run fs args).ending = (endingOf (runOn opened path settings).halt).1 ∧
    (run fs args).standardError = diagnostics settings (runOn opened path settings) := by
  rw [run_eq_of_scanned? hread hopen]
  exact ⟨rfl, rfl⟩

theorem isReported_of_mendable {error : Error} (h : Mendable error) : error.isReported = true := by
  cases h with
  | script path line => rfl
  | payload origin shown => rfl

theorem isReported_of_unreported {x : Extraction} {disk : Disk} {depth : Nat} {path : Text} {error : Error}
    (h : Unreported x disk depth path error) : error.isReported = false := by
  cases h with
  | path offset surrogates hpath => rfl
  | literal file hfile script hscript hvalue failure => rfl
  | payload file hfile call hcall hlong => rfl

/-- **How a command line ends.** Let a command line ask for an extraction from a path without the code point
zero, let its output file be one that can be opened, if there is any, and let all names in the file system
be such as can be paths. The program ends with status 0; or, if it is to stop at the first path that cannot
be read, with status 1 after such a path; or with status 1 after the message of an error that the author of
a source can mend. It ends with an error that escapes only if the path cannot be encoded, if a literal in
one of the files has an escape that is no code point, or if a marked call starts with an integer that is too
long to be shown. All that is written can be encoded. -/
theorem ending_of_run (fs opened : FileSystem) (args : List Text) (path : Text) (settings : Settings)
    (hread : Request.read args = .extract path settings) (hpath : ∀ c ∈ path, c.val ≠ 0) (hfs : fs.IsUsable)
    (hopen : scanned? fs settings = .ok opened) :
    let report := run fs args
    let result := runOn opened path settings
    ((report.ending = .status 0 ∧ result.halt = none) ∨
      (settings.failFast = true ∧ report.ending = .status 1 ∧ ∃ p fault, .unreadable p fault ∈ result.log) ∨
      (∃ error, Mendable error ∧ report.ending = .status 1 ∧
        error.message ++ ("\n" : Text) <:+ report.standardError) ∨
      ∃ error, Unreported settings.extraction opened.disk (Walk.enough opened) path error ∧
        report.ending = .escaped error) ∧
    Template.Encodable result.output := by
  intro report result
  have hdisk : opened.disk.ListsUsable := listsUsable_of_scanned? hfs hopen
  have hending : report.ending = (endingOf result.halt).1 := (run_of_scanned? hread hopen).1
  have herror : report.standardError = diagnostics settings result := (run_of_scanned? hread hopen).2
  have hhalt : result.halt = none ∨
      (settings.failFast = true ∧ result.halt = some .stopped ∧ ∃ p fault, .unreadable p fault ∈ result.log) ∨
      ∃ error, result.halt = some (.failed error) ∧
        (Mendable error ∨ Unreported settings.extraction opened.disk (Walk.enough opened) path error) :=
    Extraction.halt_run rfl hdisk hpath (Walk.enough opened)
  refine ⟨?_, Extraction.encodable_output _ _ _ _⟩
  rcases hhalt with hnone | ⟨hfast, hstopped, hevent⟩ | ⟨error, hfailed, hmendable | hunreported⟩
  · rw [hnone] at hending
    exact .inl ⟨hending, hnone⟩
  · rw [hstopped] at hending
    exact .inr (.inl ⟨hfast, hending, hevent⟩)
  · have hshown : endingOf result.halt = (.status 1, error.message ++ ("\n" : Text)) := by
      rw [hfailed, endingOf, isReported_of_mendable hmendable, if_pos rfl]
    rw [hshown] at hending
    refine .inr (.inr (.inl ⟨error, hmendable, hending, ?_⟩))
    -- the message comes last, behind the events
    rw [herror, diagnostics, hshown]
    exact List.suffix_append _ _
  · have hescaped : endingOf result.halt = (.escaped error, []) := by
      rw [hfailed, endingOf, isReported_of_unreported hunreported, if_neg Bool.false_ne_true]
    rw [hescaped] at hending
    exact .inr (.inr (.inr ⟨error, hunreported, hending⟩))

/-- A script that ends in the middle of an expression. -/
def unfinishedScript : FileSystem where
  items := [(["a.js"], .file ("__('x') +".toList.flatMap Utf8.encodeChar))]

/-- A script that breaks off, on its own: the run ends with status 1 and a report. -/
theorem ending_of_run_unfinishedScript :
    (run unfinishedScript ["a.js"]).ending = .status 1 ∧
    ∃ error, Mendable error ∧ error.message ++ ("\n" : Text) <:+ (run unfinishedScript ["a.js"]).standardError := by
  have hending : (run unfinishedScript ["a.js"]).ending = .status 1 := by decide +kernel
  have hfs : unfinishedScript.IsUsable := by
    refine ⟨by decide +kernel, ?_⟩
    intro item hitem onward hlink
    rw [List.mem_singleton.mp hitem] at hlink
    cases hlink
  have hcases := (ending_of_run unfinishedScript unfinishedScript ["a.js"] "a.js" { path := some "a.js" } rfl
    (by decide) hfs rfl).1
  refine ⟨hending, ?_⟩
  -- of the four endings only a reported failure has this status
  rcases hcases with ⟨hstatus, -⟩ | ⟨hfast, -⟩ | ⟨error, hmendable, -, hmessage⟩ | ⟨error, -, hescaped⟩
  · rw [hending] at hstatus
    cases hstatus
  · cases hfast
  · exact ⟨error, hmendable, hmessage⟩
  · rw [hending] at hescaped
    cases hescaped

/-- A script with a literal whose escape is one more than the last code point. -/
def beyondLast : FileSystem where
  items := [(["a.js"], .file ("__('\\u\x7b110000\x7d')".toList.flatMap Utf8.encodeChar))]

/-- **A literal without value** ends the program with an error that it does not report. -/
theorem ending_of_beyondLast :
    beyondLast.IsUsable ∧ (∀ c ∈ ("a.js" : Text), c.val ≠ 0) ∧
    Request.read ["a.js"] = .extract "a.js" { path := some "a.js" } ∧
    (run beyondLast ["a.js"]).ending = .escaped (.noValue .beyondLast) ∧
    Error.isReported (.noValue .beyondLast) = false := by
  refine ⟨⟨by decide +kernel, ?_⟩, by decide, rfl, by decide +kernel, rfl⟩
  intro item hitem onward hlink
  rw [List.mem_singleton.mp hitem] at hlink
  cases hlink

end Command

end Phrasebook
