import Phrasebook.Extraction
import Phrasebook.Proofs.Arguments
import Phrasebook.Proofs.Merging
import Phrasebook.Proofs.Paths

/-!
# Phrasebook — the outcome of an extraction

An extraction meets three kinds of trouble: paths that cannot be read, sources that cannot be parsed, and
messages that cannot be translated. The first kind is passed over, the second ends the extraction before
anything but the header is written, and the third ends it while the template is written.

The files that a walk found and that could be read are all that matters: collecting from the visits of a
walk is collecting from these files (`Extraction.collectVisits_eq`). If they can all be parsed, the
catalog holds the messages of their marked calls, and the template is written up to the first message that
cannot be translated. Its key is its place, so that no earlier message can hide it.

Main results:

* `Template.write_append_of_translatable` — a template is written up to the first entry without block;
* `Extraction.collectVisits_found` — what becomes of a file that a walk found;
* `Extraction.collectVisits_eq` — what is passed over;
* `Extraction.run_outcome` — the outcome of every extraction.
-/

namespace Phrasebook

/-! ## Keys of messages -/

theorem Message.key_eq_text_iff {m : Message} : (∃ t, m.key = .text t) ↔ m.payload.Translatable := by
  rw [← Value.identity?_isSome_iff, key]
  cases m.payload.identity? with
  | none => simp
  | some t => simp

/-- An entry can be translated exactly if its key is a text, as the first message with its key shows. -/
theorem Entry.translatable_iff_key {ms : List Message} {e : Entry}
    (h : ofOccurrences? (e.key.occurrences ms) = some e) :
    e.payload.Translatable ↔ ∃ t, e.key = .text t := by
  obtain ⟨first, later, -, -, hkey, -, hpayload⟩ := exists_first h
  rw [hpayload, ← hkey]
  exact Message.key_eq_text_iff.symm

theorem Entry.Collect.translatable {es : List Entry} {ms before : List Message}
    (h : Collect es (before.map Message.key).eraseDups ms)
    (hbefore : ∀ m ∈ before, m.payload.Translatable) : ∀ e ∈ es, e.payload.Translatable := by
  intro e he
  have hkey : e.key ∈ before.map Message.key := by
    rw [← List.mem_eraseDups, ← h.keys]
    exact List.mem_map_of_mem he
  obtain ⟨m, hm, hsame⟩ := List.mem_map.mp hkey
  obtain ⟨t, ht⟩ := Message.key_eq_text_iff.mpr (hbefore m hm)
  exact (translatable_iff_key (h.entry e he)).mpr ⟨t, hsame.symm.trans ht⟩

/-- **The first message that cannot be translated** is not merged into an earlier one: its entry stands
right behind those of the keys before it. -/
theorem Catalog.Holds.split {c : Catalog} {before after : List Message} {m : Message}
    (h : c.Holds (before ++ m :: after)) (hbefore : ∀ b ∈ before, b.payload.Translatable)
    (hm : ¬ m.payload.Translatable) :
    ∃ es e rest, c.entries = es ++ e :: rest ∧
      Entry.Collect es (before.map Message.key).eraseDups (before ++ m :: after) ∧
      e.payload = m.payload ∧ e.origin = m.origin := by
  -- the keys before it are texts, and its own key is none
  have hnew : m.key ∉ before.map Message.key := by
    intro hmem
    obtain ⟨b, hb, hsame⟩ := List.mem_map.mp hmem
    obtain ⟨t, ht⟩ := Message.key_eq_text_iff.mpr (hbefore b hb)
    exact hm (Message.key_eq_text_iff.mp ⟨t, hsame.symm.trans ht⟩)
  have hkeys := h.keys
  rw [List.map_append, List.map_cons, Catalog.eraseDups_append_cons_of_not_mem hnew,
    List.map_eq_append_iff] at hkeys
  obtain ⟨es, others, hentries, hes, hothers⟩ := hkeys
  obtain ⟨e, rest, rfl, hkey, -⟩ := List.map_eq_cons_iff.mp hothers
  have hsub : ∀ d ∈ es ++ e :: rest,
      Entry.ofOccurrences? (d.key.occurrences (before ++ m :: after)) = some d := by
    rw [← hentries]
    exact h.entry
  -- hence it is the first message with its key
  have hself : m.key.occurrences (m :: after) = m :: m.key.occurrences after :=
    List.filter_cons_of_pos (beq_self_eq_true m.key)
  have hentry := hsub e (List.mem_append_right _ List.mem_cons_self)
  rw [hkey, Key.occurrences_append, Key.occurrences_eq_nil hnew, List.nil_append, hself,
    Entry.ofOccurrences?, Option.some.injEq] at hentry
  refine ⟨es, e, rest, hentries, ⟨hes, fun d hd => hsub d (List.mem_append_left _ hd)⟩, ?_, ?_⟩
  · rw [← hentry]
  · rw [← hentry]

/-! ## What is written -/

namespace Template

/-- A text consists of the blocks of entries, one after the other. -/
def IsBlocks (es : List Entry) (text : Text) : Prop :=
  ∃ blocks : List Text, es.map block = blocks.map .ok ∧ text = blocks.flatten

theorem block_ok_of_translatable {e : Entry} (h : e.payload.Translatable) :
    ∃ text, block e = .ok text := by
  obtain ⟨lines, hlines⟩ := Option.isSome_iff_exists.mp (body?_isSome_iff.mpr h)
  rw [block, block?, hlines]
  exact ⟨_, rfl⟩

theorem block_error_of_not_translatable {e : Entry} (h : ¬ e.payload.Translatable) :
    block e = .error (.ofPayload e.origin e.payload) := by
  rw [← body?_isSome_iff, Bool.not_eq_true, Option.isSome_eq_false_iff, Option.isNone_iff_eq_none] at h
  rw [block, block?, h]
  rfl

/-- **Entries are written up to the first one without block.** -/
theorem write_append_of_translatable {es : List Entry} (h : ∀ e ∈ es, e.payload.Translatable)
    (rest : List Entry) :
    ∃ text, IsBlocks es text ∧
      write (es ++ rest) = { text := text ++ (write rest).text, error := (write rest).error } := by
  induction es with
  | nil => exact ⟨[], ⟨[], rfl, rfl⟩, rfl⟩
  | cons e es ih =>
    obtain ⟨hfirst, hothers⟩ := List.forall_mem_cons.mp h
    obtain ⟨first, hblock⟩ := block_ok_of_translatable hfirst
    obtain ⟨text, ⟨blocks, hblocks, rfl⟩, hwrite⟩ := ih hothers
    refine ⟨first ++ blocks.flatten, ⟨first :: blocks, ?_, rfl⟩, ?_⟩
    · rw [List.map_cons, List.map_cons, hblock, hblocks]
    · rw [List.cons_append, write, hblock]
      simp only [hwrite, List.append_assoc]

theorem write_of_not_translatable {e : Entry} (h : ¬ e.payload.Translatable) (rest : List Entry) :
    write (e :: rest) = { text := [], error := some (.ofPayload e.origin e.payload) } := by
  rw [write, block_error_of_not_translatable h]

theorem write_of_holds {c : Catalog} {ms : List Message} (h : c.Holds ms)
    (hms : ∀ m ∈ ms, m.payload.Translatable) :
    ∃ text, IsBlocks c.entries text ∧ write c.entries = { text, error := none } := by
  obtain ⟨text, hblocks, hwrite⟩ := write_append_of_translatable (h.translatable hms) []
  rw [List.append_nil, write, List.append_nil] at hwrite
  exact ⟨text, hblocks, hwrite⟩

/-- A message that cannot be translated ends the writing: what stands before it is the entries of the messages
before it, with the comments of all messages. -/
theorem write_of_holds_split {c : Catalog} {before after : List Message} {m : Message}
    (h : c.Holds (before ++ m :: after)) (hbefore : ∀ b ∈ before, b.payload.Translatable)
    (hm : ¬ m.payload.Translatable) :
    ∃ es text, Entry.Collect es (before.map Message.key).eraseDups (before ++ m :: after) ∧
      IsBlocks es text ∧
      write c.entries = { text, error := some (.ofPayload m.origin m.payload) } := by
  obtain ⟨es, e, rest, hentries, hcollect, hpayload, horigin⟩ := Catalog.Holds.split h hbefore hm
  obtain ⟨text, hblocks, hwrite⟩ :=
    write_append_of_translatable (hcollect.translatable hbefore) (e :: rest)
  rw [write_of_not_translatable (by rw [hpayload]; exact hm), List.append_nil, hpayload, horigin,
    ← hentries] at hwrite
  exact ⟨es, text, hcollect, hblocks, hwrite⟩

end Template

/-- The error for a payload shows it, unless it holds an integer of too many digits. -/
theorem Error.ofPayload_cases (origin : Text) (payload : Value) :
    (∃ shown, payload.show? = some shown ∧ ofPayload origin payload = .notText origin shown) ∨
    (payload.HoldsLong ∧ ofPayload origin payload = .notShown) := by
  rw [← Value.show?_eq_none_iff, ofPayload]
  cases payload.show? with
  | none => exact Or.inr ⟨rfl, rfl⟩
  | some shown => exact Or.inl ⟨shown, rfl, rfl⟩

/-! ## Marked calls -/

def Script.Node.arguments : Node → List Node
  | .call _ _ arguments _ => arguments
  | _ => []

def Script.Node.comments : Node → List Text
  | .call _ _ _ comments => comments
  | _ => []

namespace Extraction

open Script (Node)

/-- A file that a walk found and that could be read. -/
structure ReadFile where
  path : Text
  text : Text

/-- A marked call and the path of its source. -/
structure Site where
  origin : Text
  call : Node

/-- Whether the first argument of a call is a literal text. -/
def Site.startsWithText (s : Site) : Bool := s.call.arguments.head?.any fun a => (Marker.text? a).isSome

def Site.payload (s : Site) : Value := Marker.payload s.call.arguments

/-- The message of a call, before its placeholders are decoded. -/
def Site.raw (s : Site) : Message where
  location := Marker.location s.origin s.call.line
  comments := s.call.comments.map (("#. " : Text) ++ ·)
  payload := s.payload
  origin := s.origin

def Site.message (s : Site) : Message := s.raw.decoded

/-- The file of a visit, if there is one and it can be read. -/
def readable? (disk : Disk) : Visit → Option ReadFile
  | .found path => (readSource disk path).toOption.map fun text => { path, text }
  | .skipped _ => none
  | .unreadable _ _ => none

/-- The files below a path that can be read, in the order of the walk. -/
def files (x : Extraction) (disk : Disk) (depth : Nat) (root : Text) : List ReadFile :=
  (Walk.visits disk x.registry.covers depth root).filterMap (readable? disk)

def parse (x : Extraction) (file : ReadFile) : Except Error Node :=
  Source.parse x.registry file.path file.text

/-- The marked calls of a file, in the order of a walk of its tree. -/
def calls (x : Extraction) (file : ReadFile) : List Site :=
  match x.parse file with
  | .ok root => (root.walk.filter (Marker.marks x.markers)).map fun call => { origin := file.path, call }
  | .error _ => []

/-- What is known of a marked call: it has a first argument, which is no literal with items. -/
structure Site.Marked (s : Site) (first : Node) (rest : List Node) : Prop where
  arguments : s.call.arguments = first :: rest
  scalar    : first.IsScalar

/-- The decoded messages of a tree are those of its marked calls, in the order of the walk. -/
theorem messages_eq (origin : Text) (markers : List Marker) (root : Node) :
    (Marker.messages origin markers root).map Message.decoded =
      (root.walk.filter (Marker.marks markers)).map fun call => Site.message { origin, call } := by
  rw [Marker.messages]
  induction root.walk with
  | nil => rfl
  | cons n ns ih =>
    cases n with
    | call line callee arguments comments =>
      rw [List.filterMap_cons, List.filter_cons, Marker.message?]
      -- only a call can be marked
      cases Marker.marks markers (.call line callee arguments comments) with
      | true =>
        simp only [if_true, List.map_cons, ih]
        rfl
      | false => exact ih
    | identifier line name => exact ih
    | member line object property => exact ih
    | literal line value => exact ih
    | other line kind parts => exact ih

/-- **A source that was read** gives the kept tree of a concrete one, or an error that is no fault of a
path. -/
theorem parse_result (x : Extraction) (file : ReadFile) :
    (∃ root, x.parse file = .ok root ∧ ∃ script, Script.Lower.lower (Script.parse script) = .ok root) ∨
    ∃ error, x.parse file = .error error ∧ ∀ path fault, error ≠ .file path fault := by
  rw [parse, Source.parse, Source.code]
  -- four steps can refuse the source: its name, the transform, the encoding and the grammar
  split
  · exact Or.inr ⟨_, rfl, by simp⟩
  · next transform _ =>
    cases transform file.text with
    | error refusal => exact Or.inr ⟨_, rfl, by simp⟩
    | ok code =>
      show (∃ root, Source.characters code >>= Source.tree file.path = .ok root ∧ _) ∨
        ∃ error, Source.characters code >>= Source.tree file.path = .error error ∧ _
      -- the script may hold surrogates, and not be a text at all
      rw [Source.characters]
      split
      · next script _ =>
        show (∃ root, Source.tree file.path script = .ok root ∧ _) ∨
          ∃ error, Source.tree file.path script = .error error ∧ _
        rw [Source.tree]
        split
        · exact Or.inr ⟨_, rfl, by simp⟩
        · cases hlower : Script.Lower.lower (Script.parse script) with
          | error failure => exact Or.inr ⟨_, rfl, by simp⟩
          | ok root => exact Or.inl ⟨root, rfl, _, hlower⟩
      · split
        · exact Or.inr ⟨_, rfl, by simp⟩
        · exact Or.inr ⟨_, rfl, by simp⟩

theorem exists_script_of_parse {x : Extraction} {file : ReadFile} {root : Node}
    (h : x.parse file = .ok root) : ∃ script, Script.Lower.lower (Script.parse script) = .ok root := by
  rcases x.parse_result file with ⟨root', hroot, hlower⟩ | ⟨error, herror, _⟩
  · rw [h, Except.ok.injEq] at hroot
    rw [hroot]
    exact hlower
  · rw [h] at herror
    cases herror

/-- A call that is found has a first argument, whose literals have values. -/
theorem marked_of_mem_calls {x : Extraction} {file : ReadFile} {s : Site} (hs : s ∈ x.calls file) :
    ∃ first rest, s.Marked first rest := by
  rw [calls] at hs
  split at hs
  · next root hroot =>
    obtain ⟨script, ht⟩ := exists_script_of_parse hroot
    obtain ⟨n, hn, rfl⟩ := List.mem_map.mp hs
    obtain ⟨hmem, hmarks⟩ := List.mem_filter.mp hn
    rw [Node.walk_eq_preorder] at hmem
    cases n with
    | call line callee arguments comments =>
      cases arguments with
      | nil => cases hmarks
      | cons first rest =>
        -- the first argument is a node of the same tree
        have hbelow : first ∈ (Node.call line callee (first :: rest) comments).children :=
          List.mem_cons_of_mem _ List.mem_cons_self
        refine ⟨first, rest, rfl, ?_⟩
        exact Script.Lower.scalarLiterals_of_lower ht first
          (Node.mem_preorder_of_mem_children hmem hbelow)
    | _ => cases hmarks
  · cases hs

/-! ## What is collected -/

def messagesOf (x : Extraction) (file : ReadFile) : List Message := (x.calls file).map Site.message

/-- Collects the messages of files into a catalog, up to the first file that cannot be parsed. -/
def collectFiles (x : Extraction) (catalog : Catalog) : List ReadFile → Catalog × Option Halt
  | [] => (catalog, none)
  | file :: rest =>
    match x.parse file with
    | .ok _ => x.collectFiles (catalog.addAll (x.messagesOf file)) rest
    | .error error => (catalog, some (.failed error))

theorem readSource_of_usable (disk : Disk) {path : Text} (h : Path.Usable path) :
    (∃ text, readSource disk path = .ok text) ∨
    ∃ fault, readSource disk path = .error (.file path fault) := by
  rw [readSource, Path.check_eq_ok_iff.mpr h]
  cases disk.read path with
  | error fault => exact Or.inr ⟨fault, rfl⟩
  | ok bytes => exact Or.inl ⟨_, rfl⟩

/-- The messages of a file that could be read are those of its script, or its script cannot be parsed. -/
theorem messages_of_parse {x : Extraction} {disk : Disk} {path text : Text}
    (h : readSource disk path = .ok text) :
    (x.messages disk path).result =
      (x.parse { path, text }).map fun _ => x.messagesOf { path, text } := by
  have hraw : (readSource disk path >>= x.rawMessages path) =
      (x.parse { path, text }).map (Marker.messages path x.markers) := by
    rw [h, parse]
    show x.rawMessages path text = _
    rw [rawMessages]
    cases Source.parse x.registry path text <;> rfl
  rw [messages, hraw, messagesOf, calls]
  cases x.parse { path, text } with
  | error error => rfl
  | ok root =>
    show Except.ok ((Marker.messages path x.markers root).map Message.decoded) = _
    rw [messages_eq, Except.map, List.map_map]
    rfl

/-- **Step.** What becomes of a file that a walk found: its messages are added, or it cannot be parsed and
ends the collection, or it cannot be read and is reported. -/
theorem collectVisits_found (x : Extraction) (disk : Disk) {path : Text} (husable : Path.Usable path)
    (catalog : Catalog) (rest : List Visit) :
    let log := (x.messages disk path).log
    (∃ text root, readSource disk path = .ok text ∧ x.parse { path, text } = .ok root ∧
      x.collectVisits disk catalog (.found path :: rest) =
        (x.collectVisits disk (catalog.addAll (x.messagesOf { path, text })) rest).after log) ∨
    (∃ text error, readSource disk path = .ok text ∧ x.parse { path, text } = .error error ∧
      x.collectVisits disk catalog (.found path :: rest) = { log, catalog, halt := some (.failed error) }) ∨
    ∃ fault, readSource disk path = .error (.file path fault) ∧
      x.collectVisits disk catalog (.found path :: rest) =
        if x.failFast then { log := log ++ [.unreadable path fault], catalog, halt := some .stopped }
        else (x.collectVisits disk catalog rest).after (log ++ [.unreadable path fault]) := by
  intro log
  rw [collectVisits]
  rcases readSource_of_usable disk husable with ⟨text, hread⟩ | ⟨fault, hread⟩
  · have hmessages := messages_of_parse (x := x) hread
    -- only a fault of a path is passed over, and parsing gives none
    rcases x.parse_result { path, text } with ⟨root, hroot, -⟩ | ⟨error, herror, hfault⟩
    · rw [hroot, Except.map] at hmessages
      refine .inl ⟨text, root, hread, hroot, ?_⟩
      simp only [hmessages]
      rfl
    · rw [herror, Except.map] at hmessages
      refine .inr (.inl ⟨text, error, hread, herror, ?_⟩)
      cases error with
      | file path' fault => exact absurd rfl (hfault path' fault)
      | _ =>
        simp only [hmessages]
        rfl
  · have hmessages : (x.messages disk path).result = .error (.file path fault) := by
      rw [messages, hread]
      rfl
    refine .inr (.inr ⟨fault, hread, ?_⟩)
    simp only [hmessages]
    rfl

/-- **What is passed over.** Collecting from visits is collecting from the files among them that can be
read. -/
theorem collectVisits_eq {x : Extraction} (hx : x.failFast = false) {disk : Disk} {visits : List Visit}
    (husable : ∀ path, .found path ∈ visits → Path.Usable path) (catalog : Catalog) :
    ((x.collectVisits disk catalog visits).catalog, (x.collectVisits disk catalog visits).halt) =
      x.collectFiles catalog (visits.filterMap (readable? disk)) := by
  induction visits generalizing catalog with
  | nil => rfl
  | cons visit visits ih =>
    have hrest := ih fun path hpath => husable path (List.mem_cons_of_mem _ hpath)
    cases visit with
    | skipped path => exact hrest catalog
    | unreadable path fault =>
      -- a path that cannot be read is reported and passed over
      rw [collectVisits, hx]
      exact hrest catalog
    | found path =>
      -- of the files that are found, those that can be read are left
      rw [List.filterMap_cons, readable?]
      rcases x.collectVisits_found disk (husable path List.mem_cons_self) catalog visits with
        ⟨text, root, hread, hroot, hstep⟩ | ⟨text, error, hread, herror, hstep⟩ | ⟨fault, hread, hstep⟩
      · rw [hread, hstep]
        show _ = x.collectFiles catalog ({ path, text } :: visits.filterMap (readable? disk))
        rw [collectFiles, hroot]
        exact hrest _
      · rw [hread, hstep]
        show _ = x.collectFiles catalog ({ path, text } :: visits.filterMap (readable? disk))
        rw [collectFiles, herror]
      · rw [hread, hstep, hx]
        exact hrest catalog

theorem collectFiles_of_error {x : Extraction} {before after : List ReadFile} {file : ReadFile}
    {error : Error} (hbefore : ∀ f ∈ before, ∃ root, x.parse f = .ok root)
    (herror : x.parse file = .error error) (catalog : Catalog) :
    (x.collectFiles catalog (before ++ file :: after)).2 = some (.failed error) := by
  induction before generalizing catalog with
  | nil => rw [List.nil_append, collectFiles, herror]
  | cons f before ih =>
    obtain ⟨⟨root, hroot⟩, hothers⟩ := List.forall_mem_cons.mp hbefore
    rw [List.cons_append, collectFiles, hroot]
    exact ih hothers _

/-- Files that can all be parsed add all their messages, one file after the other. -/
theorem collectFiles_of_ok {x : Extraction} {files : List ReadFile}
    (h : ∀ f ∈ files, ∃ root, x.parse f = .ok root) (catalog : Catalog) :
    x.collectFiles catalog files = (catalog.addAll (files.flatMap x.messagesOf), none) := by
  induction files generalizing catalog with
  | nil => rfl
  | cons f files ih =>
    obtain ⟨⟨root, hroot⟩, hothers⟩ := List.forall_mem_cons.mp h
    rw [collectFiles, hroot]
    show x.collectFiles (catalog.addAll (x.messagesOf f)) files = _
    rw [ih hothers, List.flatMap_cons, Catalog.addAll, Catalog.addAll, Catalog.addAll,
      List.foldl_append]

/-! ## Calls and their messages -/

theorem Site.Marked.startsWithText_iff {s : Site} {first : Node} {rest : List Node}
    (h : s.Marked first rest) : s.startsWithText = true ↔ s.payload.Translatable := by
  rw [startsWithText, payload, h.arguments, List.head?_cons, Option.any_some,
    Marker.payload_translatable_iff h.scalar]

/-- The messages of calls that start with texts can be translated. -/
theorem translatable_of_startsWithText {sites : List Site}
    (hmarked : ∀ s ∈ sites, ∃ first rest, s.Marked first rest)
    (htext : ∀ s ∈ sites, s.startsWithText = true) :
    ∀ m ∈ sites.map Site.message, m.payload.Translatable := by
  intro m hm
  obtain ⟨s, hs, rfl⟩ := List.mem_map.mp hm
  obtain ⟨first, rest, hfirst⟩ := hmarked s hs
  exact Message.decoded_translatable (hfirst.startsWithText_iff.mp (htext s hs))

theorem Site.Marked.message_eq {s : Site} {first : Node} {rest : List Node}
    (h : s.Marked first rest) (htext : s.startsWithText = false) : s.message = s.raw := by
  apply Message.decoded_of_payload h.scalar
  · show Marker.payload s.call.arguments = _
    rw [h.arguments]
  · rw [startsWithText, h.arguments, List.head?_cons, Option.any_some, Option.isSome_eq_false_iff,
      Option.isNone_iff_eq_none] at htext
    exact htext

/-! ## The whole extraction -/

section

variable {x : Extraction} {disk : Disk} {path : Text}

theorem collect_eq (hx : x.failFast = false) (hdisk : disk.ListsUsable)
    (hroot : Path.check (Path.normalize path) = .ok ()) (depth : Nat) :
    ((x.collect disk depth path .empty).catalog, (x.collect disk depth path .empty).halt) =
      x.collectFiles .empty (x.files disk depth (Path.normalize path)) := by
  rw [collect, hroot]
  apply collectVisits_eq hx
  intro path' hfound
  exact Walk.usable_of_found hdisk (Path.check_eq_ok_iff.mp hroot) hfound

theorem run_of_halt {depth : Nat} {halt : Halt} (h : (x.collect disk depth path .empty).halt = some halt) :
    (x.run disk depth path).output = Template.header ∧ (x.run disk depth path).halt = some halt := by
  rw [run, h]
  exact ⟨rfl, rfl⟩

/-- Where every file can be parsed, the run writes the catalog of all their messages, up to the first entry that
cannot be translated. -/
theorem run_of_parsed {depth : Nat} (hx : x.failFast = false) (hdisk : disk.ListsUsable)
    (hroot : Path.check (Path.normalize path) = .ok ())
    (h : ∀ f ∈ x.files disk depth (Path.normalize path), ∃ root, x.parse f = .ok root) :
    ∃ c : Catalog,
      c.Holds (((x.files disk depth (Path.normalize path)).flatMap x.calls).map Site.message) ∧
      (x.run disk depth path).output = Template.header ++ (Template.write c.entries).text ∧
      (x.run disk depth path).halt = (Template.write c.entries).error.map .failed := by
  have hcollect := collect_eq hx hdisk hroot depth
  rw [collectFiles_of_ok h, Prod.mk.injEq] at hcollect
  obtain ⟨hcatalog, hhalt⟩ := hcollect
  refine ⟨(x.collect disk depth path .empty).catalog, ?_, ?_, ?_⟩
  · rw [hcatalog, List.map_flatMap]
    exact Catalog.holds_addAll_empty _
  · rw [run, hhalt]
  · rw [run, hhalt]

end

/-- **The outcome of an extraction.** An extraction that passes over what cannot be read ends in one of
four ways.

If the path holds a surrogate that stands for no byte, nothing but the header is written and the error
names the surrogate. Otherwise the files that were found and could be read decide. If one of them cannot
be parsed, nothing but the header is written, and the error is that of the first such file. If they can
all be parsed, but a marked call does not start with a literal text, the header is followed by the blocks
of the entries for the keys before the first such call; each entry has the comments of all messages with
its key, and the error names the origin and the payload of the call, unless the payload holds an integer
too long to be shown. If every marked call starts with a text, the header is followed by the blocks of the
entries for all keys, in the order in which they first occur, and there is no error. -/
theorem run_outcome (markers : List Marker) (registry : Registry) (disk : Disk) (depth : Nat)
    (path : Text) (hdisk : disk.ListsUsable) (hpath : ∀ c ∈ path, c.val ≠ 0) :
    let x : Extraction := { markers, registry }
    let root := Path.normalize path
    let files := x.files disk depth root
    let calls := files.flatMap x.calls
    let messages := calls.map Site.message
    let result := x.run disk depth path
    -- the path cannot be encoded
    (∀ error, Path.check root = .error error →
      (∃ offset surrogates, error = .unencodable offset surrogates) ∧
      result.output = Template.header ∧ result.halt = some (.failed error)) ∧
    (Path.check root = .ok () →
      -- a file cannot be parsed
      (∀ before file after error, files = before ++ file :: after →
        (∀ f ∈ before, ∃ tree, x.parse f = .ok tree) → x.parse file = .error error →
        result.output = Template.header ∧ result.halt = some (.failed error)) ∧
      ((∀ f ∈ files, ∃ tree, x.parse f = .ok tree) →
        -- a call does not start with a text
        (∀ before call after, calls = before ++ call :: after →
          (∀ c ∈ before, c.startsWithText = true) → call.startsWithText = false →
          ∃ entries text,
            Entry.Collect entries ((before.map Site.message).map Message.key).eraseDups messages ∧
            Template.IsBlocks entries text ∧ result.output = Template.header ++ text ∧
            ((∃ shown, call.payload.show? = some shown ∧
                result.halt = some (.failed (.notText call.origin shown))) ∨
              (call.payload.HoldsLong ∧ result.halt = some (.failed .notShown)))) ∧
        -- all calls do
        ((∀ c ∈ calls, c.startsWithText = true) →
          ∃ entries text,
            Entry.Collect entries (messages.map Message.key).eraseDups messages ∧
            Template.IsBlocks entries text ∧ result.output = Template.header ++ text ∧
            result.halt = none))) := by
  intro x root files calls messages result
  have hmarked : ∀ c ∈ calls, ∃ first rest, c.Marked first rest := by
    intro c hc
    obtain ⟨f, -, hf⟩ := List.mem_flatMap.mp hc
    exact marked_of_mem_calls hf
  refine ⟨?_, fun hroot => ⟨?_, fun hparsed => ?_⟩⟩
  · intro error hroot
    refine ⟨Path.unencodable_of_check_eq_error (Path.val_ne_zero_of_mem_normalize hpath) hroot, ?_⟩
    apply run_of_halt
    rw [collect, hroot]
  · intro before file after error hfiles hbefore herror
    apply run_of_halt
    have hcollect := congrArg Prod.snd (collect_eq (x := x) rfl hdisk hroot depth)
    rw [show x.files disk depth (Path.normalize path) = _ from hfiles,
      collectFiles_of_error hbefore herror] at hcollect
    exact hcollect
  -- from here on the catalog holds the messages of all calls
  obtain ⟨c, hholds, houtput, hhalt⟩ := run_of_parsed (x := x) rfl hdisk hroot hparsed
  change c.Holds messages at hholds
  refine ⟨?_, fun htext => ?_⟩
  · intro before call after hcalls hbefore hcall
    have hmessages : messages = before.map Site.message ++ call.message :: after.map Site.message := by
      show calls.map Site.message = _
      rw [hcalls, List.map_append, List.map_cons]
    rw [hcalls] at hmarked
    have htranslatable := translatable_of_startsWithText
      (fun c hc => hmarked c (List.mem_append_left _ hc)) hbefore
    -- decoding leaves the message alone, so the payload in the error is that of the call
    obtain ⟨first, rest, hfirst⟩ := hmarked call (List.mem_append_right _ List.mem_cons_self)
    have hraw := hfirst.message_eq hcall
    have huntranslatable : ¬ call.message.payload.Translatable := by
      rw [hraw]
      intro htext
      rw [hfirst.startsWithText_iff.mpr htext] at hcall
      cases hcall
    rw [hmessages] at hholds
    obtain ⟨es, text, hcollect, hblocks, hwrite⟩ :=
      Template.write_of_holds_split hholds htranslatable huntranslatable
    rw [← hmessages] at hcollect
    rw [hwrite, hraw] at hhalt
    rw [hwrite] at houtput
    refine ⟨es, text, hcollect, hblocks, houtput, ?_⟩
    change result.halt = some (.failed (.ofPayload call.origin call.payload)) at hhalt
    rcases Error.ofPayload_cases call.origin call.payload with ⟨shown, hshown, herror⟩ | ⟨hlong, herror⟩
    · rw [herror] at hhalt
      exact Or.inl ⟨shown, hshown, hhalt⟩
    · rw [herror] at hhalt
      exact Or.inr ⟨hlong, hhalt⟩
  · obtain ⟨text, hblocks, hwrite⟩ :=
      Template.write_of_holds hholds (translatable_of_startsWithText hmarked htext)
    rw [hwrite] at houtput hhalt
    exact ⟨c.entries, text, hholds, hblocks, houtput, hhalt⟩

/-- Two scripts in a directory. The second one has a marked call that starts with a number. -/
def twoScripts : FileSystem where
  items := [
    (["src"], .directory),
    (["src", "a.js"], .file ("__('x');".toList.flatMap Utf8.encodeChar)),
    (["src", "b.js"], .file ("__(7, 'y'); __('x')".toList.flatMap Utf8.encodeChar))]

def filesOfTwoScripts : List ReadFile :=
  files { markers := [["__"]] } twoScripts.disk (Walk.enough twoScripts) (Path.normalize "src")

def callsOfTwoScripts : List Site := filesOfTwoScripts.flatMap (calls { markers := [["__"]] })

/-- Two scripts, the first call of which can be translated and the second not: the run ends at the second. -/
theorem run_outcome_twoScripts :
    let result := run { markers := [["__"]] } twoScripts.disk (Walk.enough twoScripts) "src"
    twoScripts.disk.ListsUsable ∧
    result.halt = some (.failed (.notText "src/b.js" "(7, 'y')")) ∧
    ∃ entries text,
      Entry.Collect entries (((callsOfTwoScripts.take 1).map Site.message).map Message.key).eraseDups
        (callsOfTwoScripts.map Site.message) ∧
      Template.IsBlocks entries text ∧ result.output = Template.header ++ text := by
  intro result
  have hdisk : twoScripts.disk.ListsUsable := FileSystem.listsUsable_disk (by decide +kernel)
  -- all that the example is made of is computed
  have hfacts :
      filesOfTwoScripts.all (fun f => (parse { markers := [["__"]] } f).isOk) = true ∧
      (∀ c ∈ callsOfTwoScripts.take 1, c.startsWithText = true) ∧
      (callsOfTwoScripts.drop 1).head?.any (fun call => !call.startsWithText &&
        call.origin == ("src/b.js" : Text) && call.payload.show? == some ("(7, 'y')" : Text)) = true := by
    decide +kernel
  obtain ⟨hall, hfirst, hsecond⟩ := hfacts
  have hparsed : ∀ f ∈ filesOfTwoScripts, ∃ tree, parse { markers := [["__"]] } f = .ok tree :=
    fun f hf => isOk_iff.mp (List.all_eq_true.mp hall f hf)
  cases hdrop : callsOfTwoScripts.drop 1 with
  | nil =>
    rw [hdrop] at hsecond
    cases hsecond
  | cons call after =>
    rw [hdrop] at hsecond
    simp only [List.head?_cons, Option.any_some, Bool.and_eq_true, Bool.not_eq_true', beq_iff_eq]
      at hsecond
    obtain ⟨⟨hcall, horigin⟩, hshown⟩ := hsecond
    -- the calls are one that starts with a text, and then one that does not
    have hsplit : callsOfTwoScripts = callsOfTwoScripts.take 1 ++ call :: after := by
      rw [← hdrop, List.take_append_drop]
    obtain ⟨entries, text, hcollect, hblocks, houtput, hhalt⟩ :=
      (((run_outcome [["__"]] Registry.standard twoScripts.disk (Walk.enough twoScripts) "src" hdisk
        (by decide)).2 rfl).2 hparsed).1 _ _ _ hsplit hfirst hcall
    refine ⟨hdisk, ?_, entries, text, hcollect, hblocks, houtput⟩
    -- the value of the second call can be shown
    rcases hhalt with ⟨shown, hshown', hhalt⟩ | ⟨hlong, -⟩
    · rw [hshown, Option.some.injEq] at hshown'
      rw [horigin, ← hshown'] at hhalt
      exact hhalt
    · rw [← Value.show?_eq_none_iff, hshown] at hlong
      cases hlong

/-- **A path that cannot be encoded** ends an extraction, although it finds no file that could. -/
theorem run_unencodable_path :
    let path : Text := [⟨0xD800, by decide⟩]
    let x : Extraction := { markers := [["__"]] }
    let disk := FileSystem.disk {}
    (∀ c ∈ path, c.val ≠ 0) ∧ disk.ListsUsable ∧
    x.files disk (Walk.enough {}) (Path.normalize path) = [] ∧
    (x.run disk (Walk.enough {}) path).output = Template.header ∧
    (x.run disk (Walk.enough {}) path).halt = some (.failed (.unencodable 0 path)) := by
  refine ⟨by decide, FileSystem.listsUsable_disk (by decide), rfl, rfl, ?_⟩
  decide +kernel

end Extraction

end Phrasebook
