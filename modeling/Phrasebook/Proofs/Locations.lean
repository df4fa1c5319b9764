import Phrasebook.Proofs.Lines

/-!
# Phrasebook — the paths in locations

The path of a walk is normalised once, before it starts; below it, paths grow by joining names. For a path
that does not start at the root of the file system, normalising leaves components that are neither empty
nor `.`, with one exception: where nothing remains, the result is `.` itself. Joining a name puts one
component behind those of the directory, as long as the directory does not end with a slash, so that a
walk never adds an empty component or `.`. It does not take one away either: from `.` on, every path
starts with `./`, and so does every location.

Main results:

* `Path.normalize_eq_dot_or_isClean` — what normalising leaves;
* `Path.components_join` — what joining adds;
* `Walk.components_of_found` — the components of the paths that a walk finds;
* `Extraction.locations_of_collect` — the paths in the events and comments of an extraction;
* `Extraction.location_below_dot` — an extraction from `.`.
-/

namespace Phrasebook

/-! ## Components -/

/-- The parts of a text, by the library's function. -/
theorem Text.splitOn_eq_splitOnP (separator : Char) (t : Text) :
    splitOn separator t = t.splitOnP (·.is separator) := by
  induction t with
  | nil => rfl
  | cons c rest ih =>
    rw [splitOn, List.splitOnP_cons_eq_if_modifyHead, ih]
    by_cases hc : c.is separator = true
    · rw [if_pos hc, if_pos hc]
    · rw [if_neg hc, if_neg hc]
      cases hparts : List.splitOnP (fun d : CodePoint => d.is separator) rest with
      | nil => exact absurd hparts (List.splitOnP_ne_nil _ _)
      | cons part parts => rfl

namespace Path

/-- A text without slashes. -/
def IsSlashFree (t : Text) : Prop := ∀ c ∈ t, c.is '/' = false

instance (t : Text) : Decidable (IsSlashFree t) := inferInstanceAs (Decidable (∀ c ∈ t, c.is '/' = false))

/-- A component that names something, or the parent of a directory. -/
def IsPlain (component : Text) : Prop := component ≠ [] ∧ component ≠ dot

/-- A path whose components are all plain. -/
def IsClean (path : Text) : Prop := ∀ c ∈ components path, IsPlain c

/-- A path that starts with `.` and goes on with plain components. -/
def IsBelowDot (path : Text) : Prop := ∃ rest, components path = dot :: rest ∧ ∀ c ∈ rest, IsPlain c

/-- A name that a directory can list. -/
def IsName (name : Text) : Prop := IsSlashFree name ∧ IsPlain name

instance (name : Text) : Decidable (IsName name) :=
  inferInstanceAs (Decidable ((∀ c ∈ name, c.is '/' = false) ∧ name ≠ [] ∧ name ≠ dot))

theorem components_of_isSlashFree {t : Text} (h : IsSlashFree t) : components t = [t] := by
  rw [components, Text.splitOn_eq_splitOnP, List.splitOnP_eq_singleton h]

theorem components_append_slash (a b : Text) :
    components (a ++ .ofChar '/' :: b) = components a ++ components b := by
  simp only [components, Text.splitOn_eq_splitOnP]
  exact List.splitOnP_append_cons a b rfl

/-- No component of a path holds a slash. -/
theorem isSlashFree_of_mem_components {path part : Text} (h : part ∈ components path) : IsSlashFree part := by
  induction path generalizing part with
  | nil =>
    rw [List.mem_singleton.mp h]
    exact List.forall_mem_nil _
  | cons c rest ih =>
    rw [components, Text.splitOn] at h
    split at h
    · rcases List.mem_cons.mp h with rfl | hrest
      · exact List.forall_mem_nil _
      · exact ih hrest
    · next hc =>
      rw [Bool.not_eq_true] at hc
      change ∀ {part}, part ∈ Text.splitOn '/' rest → _ at ih
      -- the first part of the rest, with one more code point, or one of the others
      split at h
      · next first others hsplit =>
        rw [hsplit] at ih
        rcases List.mem_cons.mp h with rfl | hothers
        · exact List.forall_mem_cons.mpr ⟨hc, ih List.mem_cons_self⟩
        · exact ih (List.mem_cons_of_mem _ hothers)
      · rw [List.mem_singleton.mp h]
        exact List.forall_mem_cons.mpr ⟨hc, List.forall_mem_nil _⟩

/-- Joined with slashes, components are told apart again. -/
theorem components_joinWith {parts : List Text} (hparts : parts ≠ [])
    (hfree : ∀ part ∈ parts, IsSlashFree part) : components (Text.joinWith "/" parts) = parts := by
  fun_induction Text.joinWith "/" parts with
  | case1 => exact absurd rfl hparts
  | case2 t => exact components_of_isSlashFree (hfree t List.mem_cons_self)
  | case3 t ts hts ih =>
    obtain ⟨hfirst, hothers⟩ := List.forall_mem_cons.mp hfree
    have hrest : components (Text.joinWith "/" ts) = ts := by
      refine ih ?_ hothers
      intro hnil
      exact hts hnil
    have hcut : t ++ ("/" : Text) ++ Text.joinWith "/" ts = t ++ .ofChar '/' :: Text.joinWith "/" ts := by
      rw [List.append_assoc]
      rfl
    rw [hcut, components_append_slash, components_of_isSlashFree hfirst, hrest]
    rfl

/-! ## Normalised and joined paths -/

theorem leadingSlashes_of_not_isRooted {path : Text} (h : FileSystem.isRooted path = false) :
    leadingSlashes path = 0 := by
  cases path with
  | nil => rfl
  | cons c rest =>
    have hc : c.is '/' = false := h
    rw [leadingSlashes, List.takeWhile_cons, hc]
    rfl

/-- **Normalised paths.** Unless a path starts at the root, nothing remains of it but `.`, or only plain
components remain. -/
theorem normalize_eq_dot_or_isClean {path : Text} (h : FileSystem.isRooted path = false) :
    normalize path = dot ∨ IsClean (normalize path) := by
  unfold normalize
  rw [leadingSlashes_of_not_isRooted h]
  dsimp only
  split
  · exact .inl rfl
  · next hresult =>
    right
    generalize hkept : (reduce (0 != 0) [] (components path)).reverse = kept at hresult
    have hmem : ∀ part ∈ kept, part ∈ components path ∧ IsPlain part := by
      intro part hpart
      rw [← hkept, List.mem_reverse] at hpart
      rcases mem_of_mem_reduce hpart with hnone | hpart
      · cases hnone
      · exact hpart
    -- something remains, or the result would be empty
    have hsome : kept ≠ [] := by
      rintro rfl
      exact hresult rfl
    intro c hc
    rw [List.replicate_zero, List.nil_append,
      components_joinWith hsome fun part hpart => isSlashFree_of_mem_components (hmem part hpart).1] at hc
    exact (hmem c hc).2

/-- **Joined paths.** The components of the directory, then the name, unless the directory is empty or ends
with a slash. -/
theorem components_join {directory name : Text} (hdirectory : (components directory).getLast? ≠ some [])
    (hname : IsSlashFree name) : components (join directory name) = components directory ++ [name] := by
  have hcut : join directory name = directory ++ .ofChar '/' :: name := by
    rw [join, if_neg]
    · rw [List.append_assoc]
      rfl
    · simp only [Bool.or_eq_true, List.isEmpty_iff, Option.any_eq_true, not_or, not_exists, not_and]
      constructor
      · rintro rfl
        exact hdirectory rfl
      · intro c hc hslash
        -- behind a slash at the end there is an empty component
        obtain ⟨before, rfl⟩ := List.getLast?_eq_some_iff.mp hc
        rw [CodePoint.is_iff.mp hslash, components_append_slash, List.getLast?_append] at hdirectory
        exact hdirectory rfl
  rw [hcut, components_append_slash, components_of_isSlashFree hname]

end Path

/-- **Found paths.** The components of a path that a walk finds are those of the root, followed by names. -/
theorem Walk.components_of_found {disk : Disk} (hdisk : disk.Lists Path.IsName) {registered : Text → Bool}
    {depth : Nat} {root path : Text} (hroot : (Path.components root).getLast? ≠ some [])
    (h : .found path ∈ visits disk registered depth root) :
    ∃ names, Path.components path = Path.components root ++ names ∧ ∀ name ∈ names, Path.IsName name := by
  refine (found_induction (P := fun path => ∃ names, Path.components path = Path.components root ++ names ∧
    ∀ name ∈ names, Path.IsName name) ?_ ⟨[], (List.append_nil _).symm, List.forall_mem_nil _⟩ h).1
  rintro directory listed hlook ⟨names, hdirectory, hnames⟩ name hname
  have hvalid : Path.IsName name := hdisk directory listed hlook name hname
  -- a directory ends with the last component of the root or with a name, and neither is empty
  have hlast : (Path.components directory).getLast? ≠ some [] := by
    rw [hdirectory, List.getLast?_append]
    cases hnamed : names.getLast? with
    | none => exact hroot
    | some last =>
      intro hempty
      rw [Option.some_or, Option.some.injEq] at hempty
      exact (hnames last (List.mem_of_getLast? hnamed)).2.1 hempty
  refine ⟨names ++ [name], ?_, ?_⟩
  · rw [Path.components_join hlast hvalid.1, hdirectory, List.append_assoc]
  · intro other hother
    rcases List.mem_append.mp hother with hold | hnew
    · exact hnames other hold
    · rw [List.mem_singleton.mp hnew]
      exact hvalid

/-! ## Extractions -/

namespace Extraction

theorem Site.location_or_remark (s : Site) :
    ∀ c ∈ s.message.notes, (∃ line, c = Marker.location s.origin line) ∨ ("#. " : Text) <+: c := by
  intro c hc
  rcases Message.mem_notes_decoded hc with hraw | hnote
  · rcases List.mem_cons.mp hraw with rfl | hcomment
    · exact .inl ⟨s.call.line, rfl⟩
    · obtain ⟨line, -, rfl⟩ := List.mem_map.mp hcomment
      exact .inr (List.prefix_append _ _)
  · exact .inr hnote.isPrefix

theorem mem_log_messages {x : Extraction} {disk : Disk} {path p : Text} {count : Nat}
    (h : .extracted count p ∈ (x.messages disk path).log) : p = path := by
  rw [messages] at h
  split at h
  · cases List.mem_singleton.mp h
  · rcases List.mem_cons.mp h with hreading | hextracted
    · cases hreading
    · cases List.mem_singleton.mp hextracted
      rfl

/-- Messages are extracted from files that a walk finds. -/
theorem found_of_extracted {x : Extraction} {disk : Disk} {visits : List Visit} {catalog : Catalog} {p : Text}
    {count : Nat} (h : .extracted count p ∈ (x.collectVisits disk catalog visits).log) :
    .found p ∈ visits := by
  induction visits generalizing catalog with
  | nil => cases h
  | cons visit visits ih =>
    have hlater : ∀ {catalog : Catalog} {events : List Event},
        .extracted count p ∈ ((x.collectVisits disk catalog visits).after events).log →
        .extracted count p ∉ events → Visit.found p ∈ visit :: visits := by
      intro catalog events hmem hevents
      rcases List.mem_append.mp hmem with hbefore | hrest
      · exact absurd hbefore hevents
      · exact List.mem_cons_of_mem _ (ih hrest)
    cases visit with
    | skipped path => exact hlater h (by simp)
    | unreadable path fault =>
      rw [collectVisits] at h
      split at h
      · cases List.mem_singleton.mp h
      · exact hlater h (by simp)
    | found path =>
      -- the source itself is the only one that these events can name
      by_cases hp : p = path
      · rw [hp]
        exact List.mem_cons_self
      have hsource : .extracted count p ∉ (x.messages disk path).log := fun hmem => hp (mem_log_messages hmem)
      rw [collectVisits] at h
      split at h
      · exact hlater h hsource
      · next path' fault hresult =>
        have hreported : .extracted count p ∉ (x.messages disk path).log ++ [.unreadable path fault] := by
          simp [hsource]
        split at h
        · exact absurd h hreported
        · exact hlater h hreported
      · exact absurd h hsource

/-- What holds of all paths that a walk finds holds of the paths in the events and locations of an
extraction. -/
theorem forall_locations_collect {P : Text → Prop} {x : Extraction} {disk : Disk} {depth : Nat} {path : Text}
    (hfound : ∀ p, .found p ∈ Walk.visits disk x.registry.covers depth (Path.normalize path) → P p) :
    (∀ count p, .extracted count p ∈ (x.collect disk depth path .empty).log → P p) ∧
    ∀ e ∈ (x.collect disk depth path .empty).catalog.entries, ∀ c ∈ e.comments,
      (∃ p line, c = Marker.location p line ∧ P p) ∨ ("#. " : Text) <+: c := by
  constructor
  · intro count p h
    rw [collect] at h
    split at h
    · cases h
    -- an extraction is reported only for a path that the walk has found
    · exact hfound p (found_of_extracted h)
  · refine forall_comments_collect fun file hfile s hs c hc => ?_
    obtain ⟨hpath, -⟩ := mem_filterMap_readable?.mp hfile
    -- the origin of a call is the path of its file
    obtain ⟨horigin, -⟩ := made_of_mem_calls hs
    refine (s.location_or_remark c hc).imp_left ?_
    rintro ⟨line, rfl⟩
    rw [horigin]
    exact ⟨file.path, line, rfl, hfound file.path hpath⟩

/-- **Locations.** Let directories list names without slashes, neither empty nor `.`, and let a path not
start at the root of the file system. Unless it is normalised to `.`, no path from which messages are
extracted, and no path in a location, has an empty component or a component `.`. If it is normalised to
`.`, each of these paths starts with the component `.`, and has no other such component. All other comments
start with `#. `. -/
theorem locations_of_collect (x : Extraction) (disk : Disk) (depth : Nat) (path : Text)
    (hdisk : disk.Lists Path.IsName) (hpath : FileSystem.isRooted path = false) :
    let collected := x.collect disk depth path .empty
    (Path.normalize path ≠ Path.dot →
      (∀ count p, .extracted count p ∈ collected.log → Path.IsClean p) ∧
      ∀ e ∈ collected.catalog.entries, ∀ c ∈ e.comments,
        (∃ p line, c = Marker.location p line ∧ Path.IsClean p) ∨ ("#. " : Text) <+: c) ∧
    (Path.normalize path = Path.dot →
      (∀ count p, .extracted count p ∈ collected.log → Path.IsBelowDot p) ∧
      ∀ e ∈ collected.catalog.entries, ∀ c ∈ e.comments,
        (∃ p line, c = Marker.location p line ∧ Path.IsBelowDot p) ∨ ("#. " : Text) <+: c) := by
  intro collected
  constructor
  · intro hdot
    -- the root of the walk is clean, and so it has no empty component at its end
    have hclean : Path.IsClean (Path.normalize path) :=
      (Path.normalize_eq_dot_or_isClean hpath).resolve_left hdot
    refine forall_locations_collect fun p hp => ?_
    have hroot : (Path.components (Path.normalize path)).getLast? ≠ some [] :=
      fun hlast => (hclean _ (List.mem_of_getLast? hlast)).1 rfl
    obtain ⟨names, hcomponents, hnames⟩ := Walk.components_of_found hdisk hroot hp
    intro c hc
    -- a path below is the root with names behind it
    rw [hcomponents, List.mem_append] at hc
    exact hc.elim (hclean c) fun hc => (hnames c hc).2
  · intro hdot
    refine forall_locations_collect fun p hp => ?_
    -- a root that is a single dot stays in front of the names
    rw [hdot] at hp
    obtain ⟨names, hcomponents, hnames⟩ := Walk.components_of_found hdisk (by decide) hp
    exact ⟨names, hcomponents, fun c hc => (hnames c hc).2⟩

/-- A script below a directory. -/
def oneScript : FileSystem where
  items := [(["src"], .directory), (["src", "a.js"], .file ("__('x')".toList.flatMap Utf8.encodeChar))]

theorem locations_of_collect_untidyPath :
    let x : Extraction := { markers := [["__"]] }
    let collected := x.collect oneScript.disk (Walk.enough oneScript) ".//./src/" .empty
    collected.log = [.reading "src/a.js", .extracted 1 "src/a.js"] ∧
    collected.catalog.entries.map Entry.comments = ([["#: src/a.js:1"]] : List (List Text)) ∧
    ∀ count p, .extracted count p ∈ collected.log → Path.IsClean p := by
  intro x collected
  have hdisk : oneScript.disk.Lists Path.IsName := FileSystem.lists_disk (by decide)
  refine ⟨by decide +kernel, by decide +kernel, ?_⟩
  exact ((locations_of_collect x oneScript.disk (Walk.enough oneScript) ".//./src/" hdisk rfl).1 (by decide)).1

/-- **From the working directory** on, paths keep the `.` that stands for it. -/
theorem location_below_dot :
    let x : Extraction := { markers := [["__"]] }
    let collected := x.collect oneScript.disk (Walk.enough oneScript) "." .empty
    oneScript.disk.Lists Path.IsName ∧ FileSystem.isRooted "." = false ∧
    Event.extracted 1 "./src/a.js" ∈ collected.log ∧ ¬ Path.IsClean "./src/a.js" ∧
    collected.catalog.entries.map Entry.comments = ([["#: ./src/a.js:1"]] : List (List Text)) := by
  intro x collected
  refine ⟨FileSystem.lists_disk (by decide), rfl, by decide +kernel, ?_, by decide +kernel⟩
  intro hclean
  exact (hclean Path.dot (by decide)).2 rfl

end Extraction

end Phrasebook
