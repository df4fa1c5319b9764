import Phrasebook.Proofs.Reachable
import Phrasebook.Source

/-!
# Phrasebook — extensions

A walk tells sources from other files by the extensions of their paths, and the extension chooses the
transform of a source as well. Only the last component of a path counts, so that no dot in the name of a
directory makes a file a source. In the last component, the dots at the start do not count either: `.js` and
`..js` have no extension, but `.a.js` has one.

To see what a name's extension is, it is cut behind its last dot, or at the start if it has none. If anything
but dots stands before the cut, the text behind it is the ending of the name. Otherwise the name consists of
some dots, perhaps none, and a text without dots.

Main results:

* `Path.extension_append_slash` — directories do not count;
* `Path.extensionOfName_of_hasEnding`, `Path.extensionOfName_of_isBare` — the extensions of names;
* `Path.isBare_or_hasEnding` — there are no other names;
* `Walk.code_of_mem_visits` — a walk and the reading of a source go by the same extension;
* `Source.chosen_by_name` — all of it, for a name in a directory.
-/

namespace Phrasebook

namespace Path

/-- A text without dots. -/
def IsDotFree (t : Text) : Prop := ∀ c ∈ t, c.is '.' = false

instance (t : Text) : Decidable (IsDotFree t) := inferInstanceAs (Decidable (∀ c ∈ t, c.is '.' = false))

/-- A text of dots. -/
def IsDots (t : Text) : Prop := ∀ c ∈ t, c.is '.' = true

instance (t : Text) : Decidable (IsDots t) := inferInstanceAs (Decidable (∀ c ∈ t, c.is '.' = true))

/-- A name that is a stem, a dot and an ending, where the stem is not only dots and the ending has none. -/
def HasEnding (name ending : Text) : Prop :=
  ∃ stem, name = stem ++ .ofChar '.' :: ending ∧ (∃ c ∈ stem, c.is '.' = false) ∧ IsDotFree ending

/-- A name with no dots but those that it starts with. -/
def IsBare (name : Text) : Prop := ∃ dots behind, name = dots ++ behind ∧ IsDots dots ∧ IsDotFree behind

/-- The two sides of a cut behind the last dot, or at the start where there is none. -/
structure IsCut (before behind : Text) : Prop where
  dot_last : ∀ c ∈ before.getLast?, c.is '.' = true
  dotFree : IsDotFree behind

/-! ## Names -/

theorem not_isDots_iff {t : Text} : ¬ IsDots t ↔ ∃ c ∈ t, c.is '.' = false := by
  simp [IsDots]

/-- Every name can be cut behind its last dot, or at the start where it has none. -/
theorem exists_isCut (name : Text) : ∃ before behind, name = before ++ behind ∧ IsCut before behind := by
  -- from the end, since a dot that is added there moves the cut, and any other code point does not
  induction name using List.reverseRecOn with
  | nil => exact ⟨[], [], rfl, nofun, nofun⟩
  | append_singleton name c ih =>
    cases hc : c.is '.' with
    | true =>
      refine ⟨name ++ [c], [], (List.append_nil _).symm, ?_, nofun⟩
      intro last hlast
      rw [List.getLast?_concat, Option.mem_some_iff] at hlast
      rw [← hlast, hc]
    | false =>
      obtain ⟨before, behind, rfl, hcut⟩ := ih
      refine ⟨before, behind ++ [c], List.append_assoc .., hcut.dot_last, ?_⟩
      exact List.forall_mem_append.mpr ⟨hcut.dotFree, List.forall_mem_singleton.mpr hc⟩

/-- Read from the end, a name has no dot up to the cut, where a dot follows or nothing. -/
theorem IsCut.takeWhile_reverse {before behind : Text} (h : IsCut before behind) :
    (before ++ behind).reverse.takeWhile (!·.is '.') = behind.reverse := by
  have hbehind : ∀ c ∈ behind.reverse, (!c.is '.') = true := by
    intro c hc
    rw [h.dotFree c (List.mem_reverse.mp hc), Bool.not_false]
  have hbefore : before.reverse.takeWhile (!·.is '.') = [] := by
    cases hreverse : before.reverse with
    | nil => rfl
    | cons c rest =>
      have hlast : c ∈ before.getLast? := by
        rw [List.getLast?_eq_head?_reverse, hreverse]
        rfl
      rw [List.takeWhile_cons, h.dot_last c hlast]
      rfl
  rw [List.reverse_append, List.takeWhile_append_of_pos hbehind, hbefore, List.append_nil]

/-- **Cut names.** The text behind the cut counts unless there are only dots before it. -/
theorem extensionOfName_append {before behind : Text} (h : IsCut before behind) :
    extensionOfName (before ++ behind) = if IsDots before then [] else Text.upper behind := by
  have htake : (before ++ behind).take ((before ++ behind).length - behind.length) = before := by
    rw [List.length_append, Nat.add_sub_cancel, List.take_left]
  simp only [extensionOfName, h.takeWhile_reverse, List.reverse_reverse, htake]
  by_cases hdots : IsDots before
  · have hnone : ¬ before.any (!·.is '.') = true := by simpa [IsDots] using hdots
    rw [if_pos hdots, if_neg hnone]
  · have hmore : before.any (!·.is '.') = true := by simpa using not_isDots_iff.mp hdots
    rw [if_neg hdots, if_pos hmore]

/-- The extension of a name with an ending is this ending in capitals. -/
theorem extensionOfName_of_hasEnding {name ending : Text} (h : HasEnding name ending) :
    extensionOfName name = Text.upper ending := by
  obtain ⟨stem, rfl, ⟨c, hc, hother⟩, hending⟩ := h
  -- the cut is behind the dot that follows the stem
  have hcut : IsCut (stem ++ [.ofChar '.']) ending := by
    refine ⟨fun last hlast => ?_, hending⟩
    rw [List.getLast?_concat, Option.mem_some_iff] at hlast
    rw [← hlast]
    rfl
  have hmore : ¬ IsDots (stem ++ [.ofChar '.']) :=
    not_isDots_iff.mpr ⟨c, List.mem_append_left _ hc, hother⟩
  rw [List.append_cons, extensionOfName_append hcut, if_neg hmore]

theorem extensionOfName_of_isBare {name : Text} (h : IsBare name) : extensionOfName name = [] := by
  obtain ⟨dots, behind, rfl, hdots, hbehind⟩ := h
  have hcut : IsCut dots behind := ⟨fun c hc => hdots c (List.mem_of_getLast? hc), hbehind⟩
  rw [extensionOfName_append hcut, if_pos hdots]

theorem IsBare.not_hasEnding {name ending : Text} (h : IsBare name) : ¬ HasEnding name ending := by
  obtain ⟨dots, behind, rfl, hdots, hbehind⟩ := h
  rintro ⟨stem, hsame, ⟨c, hc, hother⟩, -⟩
  -- either the stem reaches beyond the dots, and the dot of the ending too, or it consists of dots
  rcases List.append_eq_append_iff.mp hsame with ⟨rest, -, rfl⟩ | ⟨rest, rfl, -⟩
  · have hdot := hbehind (.ofChar '.') (List.mem_append_right _ List.mem_cons_self)
    cases hdot
  · exact not_isDots_iff.mpr ⟨c, List.mem_append_left _ hc, hother⟩ hdots

/-- **Kinds of names.** A name is bare, or has an ending. -/
theorem isBare_or_hasEnding (name : Text) : IsBare name ∨ ∃ ending, HasEnding name ending := by
  obtain ⟨before, behind, rfl, hcut⟩ := exists_isCut name
  by_cases hdots : IsDots before
  · exact .inl ⟨before, behind, rfl, hdots, hcut.dotFree⟩
  · right
    obtain ⟨c, hc, hother⟩ := not_isDots_iff.mp hdots
    -- what stands last before the cut is a dot, and so not what was just found
    obtain ⟨stem, last, rfl⟩ := (List.eq_nil_or_concat' before).resolve_left (List.ne_nil_of_mem hc)
    have hlast : last.is '.' = true := hcut.dot_last last List.getLast?_concat
    refine ⟨behind, stem, ?_, ⟨c, ?_, hother⟩, hcut.dotFree⟩
    · rw [CodePoint.is_iff.mp hlast, ← List.append_cons]
    · rcases List.mem_append.mp hc with hstem | hsame
      · exact hstem
      · rw [List.mem_singleton.mp hsame, hlast] at hother
        cases hother

theorem isBare_iff {name : Text} : IsBare name ↔ ∀ ending, ¬ HasEnding name ending := by
  constructor
  · exact fun h _ => h.not_hasEnding
  · intro h
    refine (isBare_or_hasEnding name).resolve_right ?_
    rintro ⟨ending, hending⟩
    exact h ending hending

/-! ## Names in directories -/

theorem fileName_append_slash (directory : Text) {name : Text} (h : IsSlashFree name) :
    fileName (directory ++ .ofChar '/' :: name) = name := by
  rw [fileName, components_append_slash, components_of_isSlashFree h, List.getLastD_concat]

theorem extension_of_isSlashFree {name : Text} (h : IsSlashFree name) : extension name = extensionOfName name := by
  rw [extension, fileName, components_of_isSlashFree h]
  rfl

/-- **Directories** do not count for the extension of a path. -/
theorem extension_append_slash (directory : Text) {name : Text} (h : IsSlashFree name) :
    extension (directory ++ .ofChar '/' :: name) = extension name := by
  rw [extension, fileName_append_slash directory h, extension_of_isSlashFree h]

end Path

/-! ## Sources -/

/-- **One extension.** What a walk finds has a transform, which is then used for its text; for the text of what
a walk skips, there is none. -/
theorem Walk.code_of_mem_visits {registry : Registry} {disk : Disk} {depth : Nat} {root path : Text} :
    (.found path ∈ visits disk registry.covers depth root →
      ∃ transform, registry.find? (Path.extension path) = some transform ∧
        ∀ text, Source.code registry path text = (transform text).mapError (.refused path)) ∧
    (.skipped path ∈ visits disk registry.covers depth root →
      ∀ text, Source.code registry path text = .error (.unknownExtension (Path.extension path))) := by
  constructor
  · intro h
    obtain ⟨-, hcovers⟩ := visit?_path_iff.mp (reachable_of_mem_visits h).2
    obtain ⟨transform, hfind⟩ := Option.isSome_iff_exists.mp hcovers
    refine ⟨transform, hfind, fun text => ?_⟩
    simp only [Source.code, hfind]
  · intro h text
    obtain ⟨-, hcovers⟩ := visit?_path_iff.mp (reachable_of_mem_visits h).2
    have hfind : registry.find? (Path.extension path) = none :=
      Option.isNone_iff_eq_none.mp (Option.isSome_eq_false_iff.mp hcovers)
    simp only [Source.code, hfind]

/-- **Chosen by name.** Let a name without slashes stand in a directory, whatever dots are in the path of the
directory. The extension of the path is that of the name: the ending of the name in upper case, and nothing if
the name has no ending, that is, if it has no dots but those that it starts with. A walk finds the file only
if there is a transform for the extension of the name, which is also the one that is used for its text, and
skips it only if there is none. -/
theorem Source.chosen_by_name (directory name : Text) (hname : Path.IsSlashFree name) :
    let path := directory ++ .ofChar '/' :: name
    Path.extension path = Path.extension name ∧
    (∀ ending, Path.HasEnding name ending → Path.extension name = Text.upper ending) ∧
    ((∀ ending, ¬ Path.HasEnding name ending) → Path.extension name = []) ∧
    (Path.IsBare name ↔ ∀ ending, ¬ Path.HasEnding name ending) ∧
    ∀ (registry : Registry) (disk : Disk) (depth : Nat) (root : Text),
      (.found path ∈ Walk.visits disk registry.covers depth root →
        ∃ transform, registry.find? (Path.extension name) = some transform ∧
          ∀ text, code registry path text = (transform text).mapError (.refused path)) ∧
      (.skipped path ∈ Walk.visits disk registry.covers depth root →
        ∀ text, code registry path text = .error (.unknownExtension (Path.extension name))) := by
  intro path
  -- the directory, whatever its dots, does not count
  have hpath : Path.extension path = Path.extension name := Path.extension_append_slash directory hname
  refine ⟨hpath, fun ending hending => ?_, fun hnone => ?_, Path.isBare_iff, fun registry disk depth root => ?_⟩
  · rw [Path.extension_of_isSlashFree hname, Path.extensionOfName_of_hasEnding hending]
  · rw [Path.extension_of_isSlashFree hname, Path.extensionOfName_of_isBare (Path.isBare_iff.mpr hnone)]
  · rw [← hpath]
    exact Walk.code_of_mem_visits

/-- A directory that is named like a script, with two names that start with dots. -/
def dottedNames : FileSystem where
  items := [(["v1.js"], .directory), (["v1.js", ".a..mjs"], .file []), (["v1.js", "..js"], .file [])]

/-- In a directory whose name has an extension stand a name with an ending behind several dots and one that is
nothing but dots and letters. -/
theorem Source.chosen_by_name_dottedNames :
    Path.IsSlashFree ".a..mjs" ∧ Path.HasEnding ".a..mjs" "mjs" ∧ Path.extension "v1.js/.a..mjs" = "MJS" ∧
    Path.IsSlashFree "..js" ∧ Path.IsBare "..js" ∧ Path.extension "v1.js/..js" = [] ∧
    .found "v1.js/.a..mjs" ∈ Walk.visits dottedNames.disk Registry.standard.covers 2 "v1.js" ∧
    .skipped "v1.js/..js" ∈ Walk.visits dottedNames.disk Registry.standard.covers 2 "v1.js" ∧
    (∃ transform, Registry.standard.find? "MJS" = some transform ∧ ∀ text,
      code Registry.standard "v1.js/.a..mjs" text = (transform text).mapError (.refused "v1.js/.a..mjs")) ∧
    ∀ text, code Registry.standard "v1.js/..js" text = .error (.unknownExtension []) := by
  -- what the two names are made of, and what a walk reports of them
  have hscript : Path.IsSlashFree ".a..mjs" := by decide
  have hending : Path.HasEnding ".a..mjs" "mjs" := ⟨".a.", rfl, ⟨.ofChar 'a', by decide, rfl⟩, by decide⟩
  have hother : Path.IsSlashFree "..js" := by decide
  have hbare : Path.IsBare "..js" := ⟨"..", "js", rfl, by decide, by decide⟩
  have hfound : .found "v1.js/.a..mjs" ∈ Walk.visits dottedNames.disk Registry.standard.covers 2 "v1.js" := by
    decide +kernel
  have hskipped : .skipped "v1.js/..js" ∈ Walk.visits dottedNames.disk Registry.standard.covers 2 "v1.js" := by
    decide +kernel
  -- both names in the same directory
  obtain ⟨hpath, hupper, -, -, hread⟩ := chosen_by_name "v1.js" ".a..mjs" hscript
  obtain ⟨hpath', -, hnone, hkinds, hread'⟩ := chosen_by_name "v1.js" "..js" hother
  have hempty : Path.extension "..js" = [] := hnone (hkinds.mp hbare)
  have hmjs : Path.extension ".a..mjs" = "MJS" := hupper "mjs" hending
  refine ⟨hscript, hending, hpath.trans hmjs, hother, hbare, hpath'.trans hempty, hfound, hskipped, ?_, ?_⟩
  · rw [← hmjs]
    exact (hread Registry.standard dottedNames.disk 2 "v1.js").1 hfound
  · rw [← hempty]
    exact (hread' Registry.standard dottedNames.disk 2 "v1.js").2 hskipped

end Phrasebook
