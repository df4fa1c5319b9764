import Phrasebook.Proofs.Locations

/-!
# Phrasebook — what a walk reports

A path is *reachable* from a root if names lead from the root to it, each one listed by the directory before
it. This says nothing about an order, nor about the other paths that are looked at. A walk goes down from
the root and reports what it meets where it cannot go further: a file whose extension is registered, another
file, or a path that cannot be looked at. Where a walk ends, it reports exactly the reachable paths that are
no directories, in the order in which the directories list their names.

No path is reported twice. This rests on the names: as they hold no slash and are not empty, two paths below
different names of one directory differ in the component where these names stand.

Main results:

* `Walk.mem_visits_iff` — a walk reports what is reachable;
* `Walk.pairwise_visits` — in depth-first order of the listings;
* `Walk.Before.ne` — paths in this order differ;
* `Walk.found_visits_without` — an entry without files below it can be left out;
* `Extraction.walk_reports_reachable` — all of it, for every walk that ends.
-/

namespace Phrasebook

/-- The path at which something is met. -/
def Visit.path : Visit → Text
  | .found path => path
  | .skipped path => path
  | .unreadable path _ => path

def Visit.found? : Visit → Option Text
  | .found path => some path
  | .skipped _ => none
  | .unreadable _ _ => none

/-- What a visit says of its path. -/
def Visit.Describes (disk : Disk) (registered : Text → Bool) : Visit → Prop
  | .found path => disk.look path = .ok .file ∧ registered (Path.extension path) = true
  | .skipped path => disk.look path = .ok .file ∧ registered (Path.extension path) = false
  | .unreadable path fault => disk.look path = .error fault

/-- What is known of the names that directories list: they are distinct, not empty and hold no slash. -/
structure Disk.ListsNames (disk : Disk) : Prop where
  nodup : ∀ path names, disk.look path = .ok (.directory names) → names.Nodup
  slashFree : disk.Lists Path.IsSlashFree
  nonempty : disk.Lists (· ≠ [])

/-- A disk on which a directory does not list a name. -/
def Disk.without (disk : Disk) (directory name : Text) : Disk where
  look path :=
    match disk.look path with
    | .ok (.directory names) =>
      .ok (.directory (if path = directory then names.filter (· ≠ name) else names))
    | other => other
  read := disk.read

/-! ## Names in a file system -/

namespace FileSystem

theorem insertName_perm (name : Text) (names : List Text) : (insertName name names).Perm (name :: names) := by
  induction names with
  | nil => exact .refl _
  | cons n names ih =>
    rw [insertName]
    split
    · exact .refl _
    · exact (ih.cons n).trans (.swap name n names)

theorem foldr_insertName_perm (names : List Text) : (names.foldr insertName []).Perm names := by
  induction names with
  | nil => exact .refl _
  | cons n names ih => exact (insertName_perm n _).trans (ih.cons n)

/-- A directory has no two items of one name, if no two items have one location. -/
theorem nodup_namesIn {fs : FileSystem} (h : (fs.items.map Prod.fst).Nodup) (location : Location) :
    (fs.namesIn location).Nodup := by
  have hnames : fs.namesIn location = (fs.items.map Prod.fst).filterMap fun l =>
      l.getLast?.filter fun _ => l.dropLast == location := by
    rw [List.filterMap_map, namesIn]
    refine congrArg (fs.items.filterMap ·) (funext fun item => ?_)
    dsimp only [Function.comp]
    cases item.1.getLast? <;> rfl
  rw [hnames]
  -- a location is known by its directory and its name
  have hlocation : ∀ (l : Location) (name : Text),
      name ∈ (l.getLast?.filter fun _ => l.dropLast == location) → l = location ++ [name] := by
    intro l name hname
    obtain ⟨hlast, hdirectory⟩ := Option.filter_eq_some_iff.mp hname
    rw [← beq_iff_eq.mp hdirectory]
    exact (List.dropLast_append_getLast? name hlast).symm
  refine List.Pairwise.filterMap _ ?_ h
  intro l l' hdistinct name hname name' hname' hsame
  refine hdistinct ?_
  rw [hlocation l name hname, hlocation l' name' hname', hsame]

/-- What a file system lists, if its items have distinct locations and its names can be names. -/
theorem listsNames_disk {fs : FileSystem} (hlocations : (fs.items.map Prod.fst).Nodup)
    (hnames : ∀ item ∈ fs.items, ∀ name ∈ item.1, Path.IsName name) : fs.disk.ListsNames where
  nodup := by
    intro path names hlook
    obtain ⟨location, -, -, rfl⟩ := directory_of_look hlook
    exact (foldr_insertName_perm _).nodup_iff.mpr (nodup_namesIn hlocations location)
  slashFree := lists_disk fun item hitem name hname => (hnames item hitem name hname).1
  nonempty := lists_disk fun item hitem name hname => (hnames item hitem name hname).2.1

end FileSystem

namespace Walk

/-! ## Reachable paths -/

/-- The paths to which names lead from a root. -/
inductive Reachable (disk : Disk) (root : Text) : Text → Prop
  | root : Reachable disk root root
  | entry {directory name : Text} {names : List Text} (h : Reachable disk root directory)
      (hlook : disk.look directory = .ok (.directory names)) (hname : name ∈ names) :
      Reachable disk root (Path.join directory name)

/-- Whether a walk from a path ends: it does at every name of a directory. -/
inductive Ends (disk : Disk) : Text → Prop
  | intro (path : Text)
      (h : ∀ names, disk.look path = .ok (.directory names) → ∀ name ∈ names, Ends disk (Path.join path name)) :
      Ends disk path

/-- Whether a walk from a path ends within a depth. -/
def endsWithin (disk : Disk) : Nat → Text → Bool
  | 0, _ => false
  | depth + 1, path =>
    match disk.look path with
    | .ok (.directory names) => names.all fun name => endsWithin disk depth (Path.join path name)
    | _ => true

/-- Depth-first order: somewhere on the way from the root, one path lies below a name that is listed before
the name below which the other one lies. -/
def Before (disk : Disk) (root p q : Text) : Prop :=
  ∃ directory names first second,
    Reachable disk root directory ∧ disk.look directory = .ok (.directory names) ∧
    [first, second].Sublist names ∧
    Reachable disk (Path.join directory first) p ∧ Reachable disk (Path.join directory second) q

section

variable {disk : Disk} {root path : Text}

theorem Reachable.trans {p q : Text} (hp : Reachable disk root p) (hq : Reachable disk p q) :
    Reachable disk root q := by
  induction hq with
  | root => exact hp
  | entry _ hlook hname ih => exact .entry ih hlook hname

/-- What is reachable is the root itself, or is reachable from a name in it. -/
theorem Reachable.eq_or_below {p : Text} (h : Reachable disk root p) :
    p = root ∨ ∃ names name, disk.look root = .ok (.directory names) ∧ name ∈ names ∧
      Reachable disk (Path.join root name) p := by
  induction h with
  | root => exact .inl rfl
  | entry _ hlook hname ih =>
    right
    rcases ih with rfl | ⟨names, first, hroot, hfirst, hbelow⟩
    · exact ⟨_, _, hlook, hname, .root⟩
    · exact ⟨names, first, hroot, hfirst, .entry hbelow hlook hname⟩

/-- From a path that is no directory, only the path itself is reachable. -/
theorem Reachable.eq_of_not_directory {p : Text} (h : Reachable disk root p)
    (hroot : ∀ names, disk.look root ≠ .ok (.directory names)) : p = root := by
  rcases h.eq_or_below with hself | ⟨names, name, hlook, -, -⟩
  · exact hself
  · exact absurd hlook (hroot names)

/-! ## Walks that end -/

/-- A walk ends within a depth if the walks of all that is listed end within one level less. -/
theorem endsWithin_succ_iff {depth : Nat} :
    endsWithin disk (depth + 1) path = true ↔
      ∀ names, disk.look path = .ok (.directory names) →
        ∀ name ∈ names, endsWithin disk depth (Path.join path name) = true := by
  rw [endsWithin]
  split
  · next names hlook => simp [hlook]
  · next hlook =>
    simp only [true_iff]
    intro names hnames
    exact absurd hnames (hlook names)

theorem endsWithin_of_le {depth deeper : Nat} (hle : depth ≤ deeper) (h : endsWithin disk depth path = true) :
    endsWithin disk deeper path = true := by
  induction depth generalizing deeper path with
  | zero => cases h
  | succ depth ih =>
    obtain ⟨more, rfl⟩ : ∃ more, deeper = more + 1 := ⟨deeper - 1, by omega⟩
    rw [endsWithin_succ_iff] at h ⊢
    intro names hlook name hname
    exact ih (by omega) (h names hlook name hname)

/-- Of finitely many depths one is enough. -/
theorem exists_depth_of_forall {paths : List Text} (h : ∀ p ∈ paths, ∃ depth, endsWithin disk depth p = true) :
    ∃ depth, ∀ p ∈ paths, endsWithin disk depth p = true := by
  induction paths with
  | nil => exact ⟨0, by simp⟩
  | cons p paths ih =>
    obtain ⟨⟨first, hfirst⟩, hothers⟩ := List.forall_mem_cons.mp h
    obtain ⟨others, hothers⟩ := ih hothers
    refine ⟨max first others, List.forall_mem_cons.mpr ⟨endsWithin_of_le (by omega) hfirst, ?_⟩⟩
    intro q hq
    exact endsWithin_of_le (by omega) (hothers q hq)

/-- A walk that ends everywhere ends within some depth: the entries of a directory are finitely many. -/
theorem Ends.exists_depth (h : Ends disk root) : ∃ depth, endsWithin disk depth root = true := by
  induction h with
  | intro path _ ih =>
    by_cases hdirectory : ∃ names, disk.look path = .ok (.directory names)
    · obtain ⟨names, hlook⟩ := hdirectory
      have hbelow : ∀ p ∈ names.map (Path.join path), ∃ depth, endsWithin disk depth p = true := by
        simpa using ih names hlook
      obtain ⟨depth, hdepth⟩ := exists_depth_of_forall hbelow
      refine ⟨depth + 1, endsWithin_succ_iff.mpr ?_⟩
      intro names' hlook' name hname
      rw [hlook] at hlook'
      cases hlook'
      exact hdepth _ (List.mem_map_of_mem hname)
    · exact ⟨1, endsWithin_succ_iff.mpr fun names hlook => absurd ⟨names, hlook⟩ hdirectory⟩

theorem ends_of_endsWithin {depth : Nat} (h : endsWithin disk depth root = true) : Ends disk root := by
  induction depth generalizing root with
  | zero => cases h
  | succ depth ih =>
    rw [endsWithin_succ_iff] at h
    exact .intro root fun names hlook name hname => ih (h names hlook name hname)

end

/-! ## What a walk reports -/

section

variable {disk : Disk} {registered : Text → Bool} {depth : Nat} {root : Text}

/-- What a walk reports of a single path; of a directory nothing. -/
def visit? (disk : Disk) (registered : Text → Bool) (path : Text) : Option Visit :=
  match disk.look path with
  | .error fault => some (.unreadable path fault)
  | .ok .file => some (if registered (Path.extension path) then .found path else .skipped path)
  | .ok (.directory _) => none

/-- **Step.** A walk reports a path that is no directory, and goes through the names of a directory. -/
theorem visits_succ (disk : Disk) (registered : Text → Bool) (depth : Nat) (root : Text) :
    (∃ visit, visit? disk registered root = some visit ∧ visits disk registered (depth + 1) root = [visit] ∧
      ∀ names, disk.look root ≠ .ok (.directory names)) ∨
    ∃ names, disk.look root = .ok (.directory names) ∧ visit? disk registered root = none ∧
      visits disk registered (depth + 1) root =
        names.flatMap fun name => visits disk registered depth (Path.join root name) := by
  unfold visit?
  rw [visits]
  cases hlook : disk.look root with
  | error fault => exact .inl ⟨_, rfl, rfl, by simp⟩
  | ok look =>
    cases look with
    | file =>
      refine .inl ⟨_, rfl, ?_, by simp⟩
      simp only
      split <;> rfl
    | directory names => exact .inr ⟨names, rfl, rfl, rfl⟩

theorem path_of_visit? {path : Text} {visit : Visit} (h : visit? disk registered path = some visit) :
    visit.path = path := by
  unfold visit? at h
  split at h
  · cases h
    rfl
  · cases h
    split <;> rfl
  · cases h

/-- More depth than needed changes nothing. -/
theorem visits_eq_of_endsWithin {deeper : Nat} (hle : depth ≤ deeper) (h : endsWithin disk depth root = true) :
    visits disk registered deeper root = visits disk registered depth root := by
  induction depth generalizing deeper root with
  | zero => cases h
  | succ depth ih =>
    obtain ⟨more, rfl⟩ : ∃ more, deeper = more + 1 := ⟨deeper - 1, by omega⟩
    rw [visits, visits]
    cases hlook : disk.look root with
    | error fault => rfl
    | ok look =>
      cases look with
      | file => rfl
      | directory names =>
        have hnames := endsWithin_succ_iff.mp h names hlook
        exact List.flatMap_congr fun name hname => ih (by omega) (hnames name hname)

/-- What a walk reports is reachable. -/
theorem reachable_of_mem_visits {visit : Visit} (h : visit ∈ visits disk registered depth root) :
    Reachable disk root visit.path ∧ visit? disk registered visit.path = some visit := by
  induction depth generalizing root with
  | zero => cases h
  | succ depth ih =>
    rcases visits_succ disk registered depth root with
      ⟨self, hself, hvisits, -⟩ | ⟨names, hlook, -, hvisits⟩
    · rw [hvisits, List.mem_singleton] at h
      have hpath := path_of_visit? hself
      rw [h, hpath]
      exact ⟨.root, hself⟩
    · rw [hvisits] at h
      obtain ⟨name, hname, hbelow⟩ := List.mem_flatMap.mp h
      obtain ⟨hreachable, hvisit⟩ := ih hbelow
      exact ⟨(Reachable.entry .root hlook hname).trans hreachable, hvisit⟩

/-- What is reachable is reported, if the walk ends. -/
theorem mem_visits_of_reachable (hends : endsWithin disk depth root = true) {path : Text} {visit : Visit}
    (hpath : Reachable disk root path) (hvisit : visit? disk registered path = some visit) :
    visit ∈ visits disk registered depth root := by
  induction depth generalizing root with
  | zero => cases hends
  | succ depth ih =>
    rcases visits_succ disk registered depth root with
      ⟨self, hself, hvisits, hnone⟩ | ⟨names, hlook, hdirectory, hvisits⟩
    · -- nothing but the root is reachable
      rw [hpath.eq_of_not_directory hnone, hself, Option.some.injEq] at hvisit
      rw [hvisits, hvisit]
      exact List.mem_singleton_self _
    · rw [hvisits]
      rcases hpath.eq_or_below with rfl | ⟨names', name, hlook', hname, hbelow⟩
      · rw [hdirectory] at hvisit
        cases hvisit
      · rw [hlook'] at hlook
        cases hlook
        exact List.mem_flatMap.mpr ⟨name, hname, ih (endsWithin_succ_iff.mp hends _ hlook' name hname) hbelow⟩

/-- What a walk reports of a path describes the path. -/
theorem visit?_path_iff {visit : Visit} :
    visit? disk registered visit.path = some visit ↔ visit.Describes disk registered := by
  unfold visit?
  split
  · next hlook => cases visit <;> simp_all [Visit.path, Visit.Describes]
  · next hlook =>
    cases hregistered : registered (Path.extension visit.path) <;> cases visit <;>
      simp_all [Visit.path, Visit.Describes]
  · next hlook => cases visit <;> simp_all [Visit.path, Visit.Describes]

/-- **A walk reports what is reachable.** -/
theorem mem_visits_iff (hends : endsWithin disk depth root = true) {visit : Visit} :
    visit ∈ visits disk registered depth root ↔
      Reachable disk root visit.path ∧ visit.Describes disk registered := by
  rw [← visit?_path_iff]
  constructor
  · exact reachable_of_mem_visits
  · rintro ⟨hpath, hvisit⟩
    exact mem_visits_of_reachable hends hpath hvisit

/-! ## The order of a walk -/

theorem Before.below {names : List Text} {name p q : Text} (hlook : disk.look root = .ok (.directory names))
    (hname : name ∈ names) (h : Before disk (Path.join root name) p q) : Before disk root p q := by
  obtain ⟨directory, listed, first, second, hdirectory, hrest⟩ := h
  exact ⟨directory, listed, first, second, (Reachable.entry .root hlook hname).trans hdirectory, hrest⟩

/-- **Depth-first order.** A walk reports all that lies below a name before anything below the names behind
it. -/
theorem pairwise_visits (disk : Disk) (registered : Text → Bool) (depth : Nat) (root : Text) :
    (visits disk registered depth root).Pairwise fun v w => Before disk root v.path w.path := by
  induction depth generalizing root with
  | zero => exact .nil
  | succ depth ih =>
    rcases visits_succ disk registered depth root with
      ⟨self, -, hvisits, -⟩ | ⟨names, hlook, -, hvisits⟩
    · rw [hvisits]
      exact List.pairwise_singleton _ _
    · rw [hvisits, List.pairwise_flatMap]
      refine ⟨?_, ?_⟩
      · intro name hname
        exact (ih (Path.join root name)).imp fun h => h.below hlook hname
      · rw [List.pairwise_iff_forall_sublist]
        intro first second hlisted v hv w hw
        exact ⟨root, names, first, second, .root, hlook, hlisted, (reachable_of_mem_visits hv).1,
          (reachable_of_mem_visits hw).1⟩

end

end Walk

/-! ## Paths below different names -/

/-- The components of a joined path: those of the directory, without an empty one behind a slash at its end,
and then the name. -/
theorem Path.exists_components_join (directory : Text) :
    ∃ before, (components directory = before ∨ components directory = before ++ [[]]) ∧
      ∀ name, IsSlashFree name → components (join directory name) = before ++ [name] := by
  by_cases hopen : (directory.isEmpty || directory.getLast?.any (·.is '/')) = true
  · have hjoin : ∀ name, join directory name = directory ++ name := by
      intro name
      rw [join, if_pos hopen]
    simp only [Bool.or_eq_true, List.isEmpty_iff, Option.any_eq_true] at hopen
    rcases hopen with rfl | ⟨c, hc, hslash⟩
    · refine ⟨[], .inr rfl, fun name hname => ?_⟩
      rw [hjoin, List.nil_append, components_of_isSlashFree hname, List.nil_append]
    · -- the name stands behind a slash that is there already
      obtain ⟨before, rfl⟩ := List.getLast?_eq_some_iff.mp hc
      rw [CodePoint.is_iff.mp hslash] at hjoin ⊢
      refine ⟨components before, .inr (components_append_slash before []), fun name hname => ?_⟩
      rw [hjoin, List.append_assoc]
      show components (before ++ .ofChar '/' :: name) = _
      rw [components_append_slash, components_of_isSlashFree hname]
  · refine ⟨components directory, .inl rfl, fun name hname => ?_⟩
    rw [join, if_neg hopen, List.append_assoc]
    show components (directory ++ .ofChar '/' :: name) = _
    rw [components_append_slash, components_of_isSlashFree hname]

namespace Walk

section

variable {disk : Disk} {root : Text}

/-- A reachable path starts with the components of the root, as long as the root does not end with a slash. -/
theorem Reachable.components_isPrefix (hnames : disk.ListsNames) {p : Text}
    (hroot : (Path.components root).getLast? ≠ some []) (h : Reachable disk root p) :
    Path.components root <+: Path.components p ∧ (Path.components p).getLast? ≠ some [] := by
  induction h with
  | root => exact ⟨List.prefix_refl _, hroot⟩
  | entry _ hlook hname ih =>
    have hjoin := Path.components_join ih.2 (hnames.slashFree _ _ hlook _ hname)
    rw [hjoin, List.getLast?_concat]
    refine ⟨ih.1.trans (List.prefix_append _ _), ?_⟩
    intro hempty
    exact hnames.nonempty _ _ hlook _ hname (Option.some.inj hempty)

/-- **Paths in depth-first order differ**: each has its own name in the directory where they part. -/
theorem Before.ne (hnames : disk.ListsNames) {p q : Text} (h : Before disk root p q) : p ≠ q := by
  rintro rfl
  obtain ⟨directory, names, first, second, -, hlook, hlisted, hfirst, hsecond⟩ := h
  have hmem : first ∈ names ∧ second ∈ names :=
    ⟨hlisted.subset List.mem_cons_self, hlisted.subset (List.mem_cons_of_mem _ List.mem_cons_self)⟩
  obtain ⟨before, -, hbefore⟩ := Path.exists_components_join directory
  -- what is reachable from a name in the directory has this name behind the components of the directory
  have hstarts : ∀ name ∈ names, Reachable disk (Path.join directory name) p →
      before ++ [name] <+: Path.components p := by
    intro name hname hp
    have hcomponents := hbefore name (hnames.slashFree _ _ hlook _ hname)
    have hlast : (Path.components (Path.join directory name)).getLast? ≠ some [] := by
      rw [hcomponents, List.getLast?_concat]
      intro hempty
      exact hnames.nonempty _ _ hlook _ hname (Option.some.inj hempty)
    rw [← hcomponents]
    exact (hp.components_isPrefix hnames hlast).1
  have hsame : before ++ [first] = before ++ [second] := by
    have hle := List.prefix_of_prefix_length_le (hstarts first hmem.1 hfirst) (hstarts second hmem.2 hsecond)
      (by simp)
    exact hle.eq_of_length (by simp)
  have hdistinct : [first, second].Nodup := (hnames.nodup _ _ hlook).sublist hlisted
  simp at hsame hdistinct
  exact hdistinct hsame

theorem nodup_visits (hnames : disk.ListsNames) (registered : Text → Bool) (depth : Nat) (root : Text) :
    ((visits disk registered depth root).map Visit.path).Nodup := by
  rw [List.Nodup, List.pairwise_map]
  exact (pairwise_visits disk registered depth root).imp fun h => h.ne hnames

/-! ## Entries without files -/

/-- A path that cannot be looked at has no files below it. -/
theorem not_file_of_unreadable {path p : Text} {fault : Fault} (hlook : disk.look path = .error fault)
    (h : Reachable disk path p) : disk.look p ≠ .ok .file := by
  have hself : p = path := h.eq_of_not_directory (by simp [hlook])
  simp [hself, hlook]

/-- A walk still ends when an entry is taken away. -/
theorem Ends.without (directory name : Text) (h : Ends disk root) : Ends (disk.without directory name) root := by
  induction h with
  | intro path _ ih =>
    refine .intro path fun names hlook other hother => ?_
    simp only [Disk.without] at hlook
    split at hlook
    · next listed hlisted =>
      cases hlook
      refine ih listed hlisted other ?_
      split at hother
      · exact List.mem_of_mem_filter hother
      · exact hother
    · next hno => exact absurd hlook (hno names)

/-- A walk that only goes through names with files finds the same as one that goes through all. -/
theorem flatMap_filter_eq {f g : Text → List Text} {keep : Text → Bool} {names : List Text}
    (hkeep : ∀ name, keep name = true → f name = g name) (hdrop : ∀ name, keep name = false → g name = []) :
    (names.filter keep).flatMap f = names.flatMap g := by
  induction names with
  | nil => rfl
  | cons name names ih =>
    cases hname : keep name with
    | true => simp [List.filter_cons_of_pos hname, ih, hkeep name hname]
    | false => simp [hname, ih, hdrop name hname]

/-- **Entries without files can be left out**: a walk finds the same files in the same order. -/
theorem found_visits_without {directory name : Text}
    (hentry : ∀ p, Reachable disk (Path.join directory name) p → disk.look p ≠ .ok .file)
    (registered : Text → Bool) (depth : Nat) (root : Text) :
    (visits (disk.without directory name) registered depth root).filterMap Visit.found? =
      (visits disk registered depth root).filterMap Visit.found? := by
  have hnone : ∀ depth,
      (visits disk registered depth (Path.join directory name)).filterMap Visit.found? = [] := by
    intro depth
    rw [List.filterMap_eq_nil_iff]
    intro visit hvisit
    cases visit with
    | found p =>
      obtain ⟨hreachable, hfound⟩ := reachable_of_mem_visits hvisit
      have hfile : disk.look p = .ok .file := (visit?_path_iff.mp hfound).1
      exact absurd hfile (hentry p hreachable)
    | skipped p => rfl
    | unreadable p fault => rfl
  induction depth generalizing root with
  | zero => rfl
  | succ depth ih =>
    rw [visits, visits]
    cases hlook : disk.look root with
    | error fault => simp [Disk.without, hlook]
    | ok look =>
      cases look with
      | file => simp [Disk.without, hlook]
      | directory names =>
        simp only [Disk.without, hlook, List.filterMap_flatMap]
        split
        · next hroot =>
          -- the listing has changed here, and only the entry is missing
          apply flatMap_filter_eq
          · intro other _
            exact ih (Path.join root other)
          · intro other hother
            have hsame : other = name := by simpa using hother
            rw [hsame, hroot]
            exact hnone depth
        · exact List.flatMap_congr fun other _ => ih (Path.join root other)

end

end Walk

namespace Extraction

open Walk (Reachable Before)

/-- **What a walk reports.** Let a walk end, and let directories list distinct names, neither empty nor with
slashes. If the root can be a path, the walk gives the same visits for every depth from some depth on. A path
is found, skipped or reported as unreadable exactly if it is reachable from the root and is a file with a
registered extension, a file with another extension, or cannot be looked at. No path is visited twice, and
the files are found in depth-first order of the listings. If a directory does not list an entry below which
there is no file, such as one that cannot be looked at, the walk finds the same files in the same order. If
the root cannot be a path, the walk ends with an error that says so. -/
theorem walk_reports_reachable (registry : Registry) (disk : Disk) (root : Text) (hends : Walk.Ends disk root)
    (hnames : disk.ListsNames) :
    (Path.check root = .ok () →
      ∃ visits, (∃ enough, ∀ depth, enough ≤ depth → walk registry disk depth root = .ok visits) ∧
        (∀ path, .found path ∈ visits ↔ Reachable disk root path ∧ disk.look path = .ok .file ∧
          registry.covers (Path.extension path) = true) ∧
        (∀ path fault, .unreadable path fault ∈ visits ↔
          Reachable disk root path ∧ disk.look path = .error fault) ∧
        (∀ path, .skipped path ∈ visits ↔ Reachable disk root path ∧ disk.look path = .ok .file ∧
          registry.covers (Path.extension path) = false) ∧
        (visits.map Visit.path).Nodup ∧
        (visits.filterMap Visit.found?).Pairwise (Before disk root) ∧
        ∀ directory name, (∀ p, Reachable disk (Path.join directory name) p → disk.look p ≠ .ok .file) →
          ∃ others, (∃ enough, ∀ depth, enough ≤ depth →
              walk registry (disk.without directory name) depth root = .ok others) ∧
            others.filterMap Visit.found? = visits.filterMap Visit.found?) ∧
    ∀ error, Path.check root = .error error → ∀ depth, walk registry disk depth root = .error error := by
  have hwalk : ∀ {disk : Disk} {depth : Nat}, Path.check root = .ok () → Walk.endsWithin disk depth root = true →
      ∀ deeper, depth ≤ deeper →
        walk registry disk deeper root = .ok (Walk.visits disk registry.covers depth root) := by
    intro disk depth hroot hdepth deeper hle
    rw [walk, hroot, Walk.visits_eq_of_endsWithin hle hdepth]
    rfl
  constructor
  · intro hroot
    obtain ⟨enough, henough⟩ := hends.exists_depth
    refine ⟨_, ⟨enough, hwalk hroot henough⟩, fun _ => Walk.mem_visits_iff henough,
      fun _ _ => Walk.mem_visits_iff henough, fun _ => Walk.mem_visits_iff henough,
      Walk.nodup_visits hnames _ _ _, ?_, ?_⟩
    · -- what is found comes in the order of all visits
      refine (Walk.pairwise_visits disk registry.covers enough root).filterMap _ ?_
      intro v w hbefore p hp q hq
      cases v <;> cases hp
      cases w <;> cases hq
      exact hbefore
    · intro directory name hentry
      obtain ⟨fewer, hfewer⟩ := (hends.without directory name).exists_depth
      -- one depth is enough for both walks
      have hboth := Walk.endsWithin_of_le (Nat.le_max_right enough fewer) hfewer
      refine ⟨_, ⟨max enough fewer, hwalk hroot hboth⟩, ?_⟩
      rw [Walk.found_visits_without hentry,
        Walk.visits_eq_of_endsWithin (Nat.le_max_left enough fewer) henough]
  · intro error hroot depth
    rw [walk, hroot]
    rfl

/-- A directory with a script, a link that leads nowhere, a text and another directory. -/
def brokenLink : FileSystem where
  items := [(["src"], .directory), (["src", "z.js"], .file []), (["src", "m.js"], .link "nowhere"),
    (["src", "notes.txt"], .file []), (["src", "lib"], .directory), (["src", "lib", "a.mjs"], .file [])]

/-- A directory with a file below a second directory, a file of no known kind and a link that leads nowhere: the
link is reported, the file is passed over, and the file below is found with and without the link. -/
theorem walk_reports_reachable_brokenLink :
    Walk.Ends brokenLink.disk "src" ∧ brokenLink.disk.ListsNames ∧
    ∃ visits, (∃ enough, ∀ depth, enough ≤ depth →
        walk Registry.standard brokenLink.disk depth "src" = .ok visits) ∧
      .unreadable "src/m.js" .notFound ∈ visits ∧ .skipped "src/notes.txt" ∈ visits ∧
      .found "src/lib/a.mjs" ∈ visits ∧ (visits.map Visit.path).Nodup ∧
      ∃ others, (∃ enough, ∀ depth, enough ≤ depth →
          walk Registry.standard (brokenLink.disk.without "src" "m.js") depth "src" = .ok others) ∧
        others.filterMap Visit.found? = visits.filterMap Visit.found? := by
  have hwithin : Walk.endsWithin brokenLink.disk 3 "src" = true := by decide +kernel
  have hends : Walk.Ends brokenLink.disk "src" := Walk.ends_of_endsWithin hwithin
  have hnames : brokenLink.disk.ListsNames := FileSystem.listsNames_disk (by decide +kernel) (by decide +kernel)
  have hsrc : brokenLink.disk.look "src" = .ok (.directory ["lib", "m.js", "notes.txt", "z.js"]) := rfl
  have hlib : brokenLink.disk.look "src/lib" = .ok (.directory ["a.mjs"]) := rfl
  have hbroken : brokenLink.disk.look (Path.join "src" "m.js") = .error .notFound := rfl
  -- the names in the two directories are reached through their listings
  have hlisted : ∀ name ∈ (["lib", "m.js", "notes.txt", "z.js"] : List Text),
      Reachable brokenLink.disk "src" (Path.join "src" name) := fun name hname => .entry .root hsrc hname
  have hbelow : Reachable brokenLink.disk "src" (Path.join "src/lib" "a.mjs") :=
    .entry (hlisted "lib" (by decide)) hlib (by decide)
  obtain ⟨visits, hvisits, hfound, hunreadable, hskipped, hnodup, -, hwithout⟩ :=
    (walk_reports_reachable Registry.standard brokenLink.disk "src" hends hnames).1 rfl
  refine ⟨hends, hnames, visits, hvisits, ?_, ?_, ?_, hnodup, ?_⟩
  · exact (hunreadable _ _).mpr ⟨hlisted "m.js" (by decide), hbroken⟩
  · exact (hskipped _).mpr ⟨hlisted "notes.txt" (by decide), rfl, by decide +kernel⟩
  · exact (hfound _).mpr ⟨hbelow, rfl, by decide +kernel⟩
  · exact hwithout "src" "m.js" fun p hp => Walk.not_file_of_unreadable hbroken hp

end Extraction

end Phrasebook
