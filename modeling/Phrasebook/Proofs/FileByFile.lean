import Phrasebook.Proofs.Provenance

/-!
# Phrasebook — collecting file by file

A collection takes in a file as a whole or not at all: the messages of a file are known before the first of
them is added. A file that cannot be read is passed over; a file that cannot be parsed ends the collection,
although the walk would go on. So the catalog gains the messages of the files that could be read, up to the
first one that cannot be parsed, and what it gains does not depend on what it held before. Hence collections
into one catalog, one after the other, add up, whether they succeed or not.

Main results:

* `Extraction.collectFiles_cases` — how a collection from files ends;
* `Extraction.catalog_collect`, `Extraction.collects` — what one collection adds, and why there is no more;
* `Extraction.collect_file_by_file` — one collection, and several into one catalog.
-/

namespace Phrasebook

theorem Catalog.addAll_append (c : Catalog) (ms more : List Message) :
    c.addAll (ms ++ more) = (c.addAll ms).addAll more := by
  unfold addAll
  rw [List.foldl_append]

namespace Extraction

/-- One collection: what it sees of the files, how deep it walks, and where it starts. -/
structure Round where
  disk : Disk
  depth : Nat
  path : Text

/-- The files of a collection that can be read, in the order of the walk. -/
def Round.files (x : Extraction) (r : Round) : List ReadFile := x.files r.disk r.depth (Path.normalize r.path)

def parses (x : Extraction) (file : ReadFile) : Bool := (x.parse file).isOk

/-- The messages that a collection adds: those of the files before the first one that cannot be parsed. -/
def gathered (x : Extraction) (r : Round) : List Message :=
  match Path.check (Path.normalize r.path) with
  | .ok () => ((r.files x).takeWhile x.parses).flatMap x.messagesOf
  | .error _ => []

/-- The catalog after several collections into it, whether they succeed or not. -/
def collectRounds (x : Extraction) (start : Catalog) (rounds : List Round) : Catalog :=
  rounds.foldl (fun catalog r => (x.collect r.disk r.depth r.path catalog).catalog) start

/-- How a collection goes: all its files are parsed and add their messages; or one of them cannot be parsed,
and only the files before it add theirs; or it cannot start at its path, and adds nothing. -/
inductive Collects (x : Extraction) (r : Round) (added : List Message) (halt : Option Halt) : Prop
  | all (hroot : Path.check (Path.normalize r.path) = .ok ())
      (hparsed : ∀ f ∈ r.files x, ∃ tree, x.parse f = .ok tree)
      (hadded : added = (r.files x).flatMap x.messagesOf) (hhalt : halt = none)
  | upTo (hroot : Path.check (Path.normalize r.path) = .ok ())
      (before : List ReadFile) (file : ReadFile) (after : List ReadFile) (error : Error)
      (hfiles : r.files x = before ++ file :: after) (hbefore : ∀ f ∈ before, ∃ tree, x.parse f = .ok tree)
      (herror : x.parse file = .error error) (hadded : added = before.flatMap x.messagesOf)
      (hhalt : halt = some (.failed error))
  | nowhere (error : Error) (hroot : Path.check (Path.normalize r.path) = .error error) (hadded : added = [])
      (hhalt : halt = some (.failed error))

/-! ## Files -/

theorem parses_iff {x : Extraction} {file : ReadFile} : x.parses file = true ↔ ∃ tree, x.parse file = .ok tree :=
  isOk_iff

theorem parses_eq_false_iff {x : Extraction} {file : ReadFile} :
    x.parses file = false ↔ ∃ error, x.parse file = .error error := by
  unfold parses
  cases x.parse file with
  | ok tree => simp [Except.isOk, Except.toBool]
  | error error => simp [Except.isOk, Except.toBool]

/-- Collecting from files adds the messages of those before the first one that cannot be parsed. -/
theorem catalog_collectFiles (x : Extraction) (catalog : Catalog) (files : List ReadFile) :
    (x.collectFiles catalog files).1 = catalog.addAll ((files.takeWhile x.parses).flatMap x.messagesOf) := by
  induction files generalizing catalog with
  | nil => rfl
  | cons file files ih =>
    rw [collectFiles]
    cases hparse : x.parse file with
    | ok tree =>
      have hparses : x.parses file = true := parses_iff.mpr ⟨tree, hparse⟩
      rw [List.takeWhile_cons_of_pos hparses, List.flatMap_cons, Catalog.addAll_append]
      exact ih _
    | error error =>
      have hparses : x.parses file = false := parses_eq_false_iff.mpr ⟨error, hparse⟩
      rw [List.takeWhile_cons_of_neg (by simp [hparses])]
      rfl

/-- **How a collection from files ends**: with none that cannot be parsed, or at the first one. -/
theorem collectFiles_cases (x : Extraction) (files : List ReadFile) :
    ((∀ f ∈ files, ∃ tree, x.parse f = .ok tree) ∧ files.takeWhile x.parses = files ∧
      ∀ catalog, (x.collectFiles catalog files).2 = none) ∨
    ∃ before file after error, files = before ++ file :: after ∧
      (∀ f ∈ before, ∃ tree, x.parse f = .ok tree) ∧ x.parse file = .error error ∧
      files.takeWhile x.parses = before ∧
      ∀ catalog, (x.collectFiles catalog files).2 = some (.failed error) := by
  have hsplit : files.takeWhile x.parses ++ files.dropWhile x.parses = files := List.takeWhile_append_dropWhile
  have htaken : ∀ f ∈ files.takeWhile x.parses, ∃ tree, x.parse f = .ok tree :=
    fun f hf => parses_iff.mp (List.all_eq_true.mp List.all_takeWhile f hf)
  cases hdrop : files.dropWhile x.parses with
  | nil =>
    rw [hdrop, List.append_nil] at hsplit
    rw [hsplit] at htaken
    refine .inl ⟨htaken, hsplit, fun catalog => ?_⟩
    rw [collectFiles_of_ok htaken]
  | cons file after =>
    -- what comes first behind the files that were taken is the one that stopped it
    have hfile : x.parses file = false := by
      have hhead := List.head?_dropWhile_not x.parses files
      rw [hdrop] at hhead
      simpa using hhead
    obtain ⟨error, herror⟩ := parses_eq_false_iff.mp hfile
    rw [hdrop] at hsplit
    refine .inr ⟨_, file, after, error, hsplit.symm, htaken, herror, rfl, fun catalog => ?_⟩
    rw [← hsplit]
    exact collectFiles_of_error htaken herror catalog

/-! ## Collections -/

section

variable {x : Extraction} {r : Round}

/-- A collection is one from the files that can be read. -/
theorem collect_eq_collectFiles (hx : x.failFast = false) (hdisk : r.disk.ListsUsable)
    (hroot : Path.check (Path.normalize r.path) = .ok ()) (start : Catalog) :
    (x.collect r.disk r.depth r.path start).catalog = (x.collectFiles start (r.files x)).1 ∧
    (x.collect r.disk r.depth r.path start).halt = (x.collectFiles start (r.files x)).2 := by
  have husable : ∀ path, .found path ∈ Walk.visits r.disk x.registry.covers r.depth (Path.normalize r.path) →
      Path.Usable path :=
    fun path hfound => Walk.usable_of_found hdisk (Path.check_eq_ok_iff.mp hroot) hfound
  have hvisits : ((x.collectVisits r.disk start _).catalog, (x.collectVisits r.disk start _).halt) =
      x.collectFiles start (r.files x) := collectVisits_eq hx husable start
  rw [collect, hroot]
  exact ⟨congrArg Prod.fst hvisits, congrArg Prod.snd hvisits⟩

/-- **Step.** What a collection adds does not depend on the catalog. -/
theorem catalog_collect (hx : x.failFast = false) (hdisk : r.disk.ListsUsable) (start : Catalog) :
    (x.collect r.disk r.depth r.path start).catalog = start.addAll (x.gathered r) := by
  unfold gathered
  cases hroot : Path.check (Path.normalize r.path) with
  | error error =>
    rw [collect, hroot]
    rfl
  | ok _ => rw [(collect_eq_collectFiles hx hdisk hroot start).1, catalog_collectFiles]

/-- One round of collecting: what it adds is what its files give up to the first that cannot be parsed. -/
theorem collects (hx : x.failFast = false) (hdisk : r.disk.ListsUsable) (start : Catalog) :
    Collects x r (x.gathered r) (x.collect r.disk r.depth r.path start).halt := by
  unfold gathered
  cases hroot : Path.check (Path.normalize r.path) with
  | error error =>
    rw [collect, hroot]
    exact .nowhere error hroot rfl rfl
  | ok _ =>
    rw [(collect_eq_collectFiles hx hdisk hroot start).2]
    rcases collectFiles_cases x (r.files x) with
      ⟨hparsed, htaken, hhalt⟩ | ⟨before, file, after, error, hfiles, hbefore, herror, htaken, hhalt⟩
    · exact .all hroot hparsed (by rw [htaken]) (hhalt start)
    · exact .upTo hroot before file after error hfiles hbefore herror (by rw [htaken]) (hhalt start)

end

/-- **Run.** Collections into one catalog add up. -/
theorem collectRounds_eq {x : Extraction} (hx : x.failFast = false) {rounds : List Round}
    (hdisks : ∀ r ∈ rounds, r.disk.ListsUsable) (start : Catalog) :
    x.collectRounds start rounds = start.addAll (rounds.flatMap x.gathered) := by
  induction rounds generalizing start with
  | nil => rfl
  | cons r rounds ih =>
    obtain ⟨hfirst, hothers⟩ := List.forall_mem_cons.mp hdisks
    rw [List.flatMap_cons, Catalog.addAll_append, ← catalog_collect hx hfirst start]
    exact ih hothers _

/-- **Collecting file by file.** Let directories list names that can be paths. A collection into any catalog
adds the messages of all its files that can be read, in the order of the walk, if they can all be parsed;
otherwise it ends with the error of the first one that cannot, and adds the messages of the files before it
and no others; and if it cannot start at its path, it adds none. The messages of a file are those that are
extracted from it alone. Several collections into one catalog, with or without errors, and with files that
may change in between, add what each of them adds, one after the other. -/
theorem collect_file_by_file (markers : List Marker) (registry : Registry) (rounds : List Round)
    (hdisks : ∀ r ∈ rounds, r.disk.ListsUsable) :
    let x : Extraction := { markers, registry }
    (∀ r ∈ rounds, ∀ start,
      (x.collect r.disk r.depth r.path start).catalog = start.addAll (x.gathered r) ∧
      Collects x r (x.gathered r) (x.collect r.disk r.depth r.path start).halt ∧
      ∀ f ∈ r.files x, ∀ tree, x.parse f = .ok tree →
        (x.messages r.disk f.path).result = .ok (x.messagesOf f)) ∧
    ∀ start, x.collectRounds start rounds = start.addAll (rounds.flatMap x.gathered) := by
  intro x
  refine ⟨?_, fun start => collectRounds_eq rfl hdisks start⟩
  intro r hr start
  -- the first two parts hold of each round by itself
  refine ⟨catalog_collect rfl (hdisks r hr) start, collects rfl (hdisks r hr) start, ?_⟩
  intro f hf tree hparse
  -- a file of the round is one that can be read
  have hread : readSource r.disk f.path = .ok f.text := (mem_filterMap_readable?.mp hf).2
  have hmessages := messages_of_parse (x := x) hread
  rw [hparse] at hmessages
  exact hmessages

/-- Three scripts in one directory, of which the second one ends too early, and one script in another. -/
def unfinishedSecond : FileSystem where
  items := [
    (["src"], .directory),
    (["src", "a.js"], .file ("__('x')".toList.flatMap Utf8.encodeChar)),
    (["src", "b.js"], .file ("__('y'); __(".toList.flatMap Utf8.encodeChar)),
    (["src", "c.js"], .file ("__('z')".toList.flatMap Utf8.encodeChar)),
    (["lib"], .directory),
    (["lib", "d.js"], .file ("__('w')".toList.flatMap Utf8.encodeChar))]

/-- A collection that fails, and one that does not. -/
def twoRounds : List Round :=
  [⟨unfinishedSecond.disk, Walk.enough unfinishedSecond, "src"⟩,
    ⟨unfinishedSecond.disk, Walk.enough unfinishedSecond, "lib"⟩]

/-- The first collection ends at its second script and keeps what the script before it gave; the second one adds
to that. -/
theorem collect_file_by_file_twoRounds :
    let x : Extraction := { markers := [["__"]] }
    (∀ r ∈ twoRounds, r.disk.ListsUsable) ∧
    (x.collect unfinishedSecond.disk (Walk.enough unfinishedSecond) "src" .empty).halt =
      some (.failed (.outsideGrammar "src/b.js" 1)) ∧
    ∃ added, x.collectRounds .empty twoRounds = Catalog.empty.addAll added ∧
      added.map (fun m => m.payload.text?) = [some ("x" : Text), some "w"] := by
  intro x
  have hdisk : unfinishedSecond.disk.ListsUsable := FileSystem.listsUsable_disk (by decide +kernel)
  have hdisks : ∀ r ∈ twoRounds, r.disk.ListsUsable := by
    intro r hr
    simp only [twoRounds, List.mem_cons, List.not_mem_nil, or_false] at hr
    rcases hr with rfl | rfl <;> exact hdisk
  refine ⟨hdisks, by decide +kernel, twoRounds.flatMap x.gathered, ?_, ?_⟩
  · exact (collect_file_by_file [["__"]] Registry.standard twoRounds hdisks).2 .empty
  · decide +kernel

end Extraction

end Phrasebook
