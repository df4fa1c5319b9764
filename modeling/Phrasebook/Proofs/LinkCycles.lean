import Phrasebook.Proofs.Reachable

/-!
# Phrasebook — walks through cycles of links

A walk follows links to directories and keeps no record of where it has been, so links that lead back to a
directory above them make its paths longer and longer. It ends because a path is only looked at as long as it
leads through few links. Every name that a walk adds to a path either goes down from a directory of the file
system to one below it, or leads through one more link. So along a walk the *rank* of the directories grows,
which counts a link for more than the deepest directory, and the rank is bounded.

Nothing is asked of the links: they may lead to their own directory, to each other, or nowhere, and any number
of them may stand in one directory. How a path leads to a location is described here as a relation, without the
functions that look for it; its count of links is unbounded.

Main results:

* `FileSystem.LeadsTo.unique`, `FileSystem.LeadsTo.split` — a path leads to one location, part by part;
* `FileSystem.leadsTo_of_walkTo`, `FileSystem.shows_disk` — the look-up of a file system follows this relation, up
  to the bound on links;
* `FileSystem.Finds.rank_lt` — the rank grows with every name;
* `Extraction.walk_ends` — every walk ends within the depth `Walk.enough`.
-/

namespace Phrasebook

/-- A name that a directory lists besides itself and its parent. -/
def Path.IsEntry (name : Text) : Prop := IsName name ∧ name ≠ dotDot

instance (name : Text) : Decidable (Path.IsEntry name) :=
  inferInstanceAs (Decidable (Path.IsName name ∧ name ≠ Path.dotDot))

namespace FileSystem

/-! ## Where a path leads -/

/-- From a location, components lead to a location through a number of links. Before each component there has
to be a directory. A link is replaced by the components of its target. -/
inductive LeadsTo (fs : FileSystem) : Location → List Text → Nat → Location → Prop
  | here (location : Location) : LeadsTo fs location [] 0 location
  | stay {location found : Location} {c : Text} {rest : List Text} {links : Nat}
    (hdirectory : fs.isDirectory location = true) (hc : c = [] ∨ c = Path.dot)
    (h : LeadsTo fs location rest links found) : LeadsTo fs location (c :: rest) links found
  | up {location found : Location} {rest : List Text} {links : Nat}
    (hdirectory : fs.isDirectory location = true)
    (h : LeadsTo fs location.dropLast rest links found) : LeadsTo fs location (Path.dotDot :: rest) links found
  | down {location found : Location} {c : Text} {rest : List Text} {links : Nat} {item : Item}
    (hdirectory : fs.isDirectory location = true) (hc : ¬ (c = [] ∨ c = Path.dot)) (hup : c ≠ Path.dotDot)
    (hitem : fs.item? (location ++ [c]) = some item) (hlink : ∀ target, item ≠ .link target)
    (h : LeadsTo fs (location ++ [c]) rest links found) : LeadsTo fs location (c :: rest) links found
  | follow {location found : Location} {c : Text} {rest : List Text} {links : Nat} {target : Text}
    (hdirectory : fs.isDirectory location = true) (hc : ¬ (c = [] ∨ c = Path.dot)) (hup : c ≠ Path.dotDot)
    (hitem : fs.item? (location ++ [c]) = some (.link target))
    (h : LeadsTo fs (start location target) (Path.components target ++ rest) links found) :
    LeadsTo fs location (c :: rest) (links + 1) found

variable {fs : FileSystem}

/-- **One location**: components lead to at most one, through one number of links. -/
theorem LeadsTo.unique {location found found' : Location} {components : List Text} {links links' : Nat}
    (h : fs.LeadsTo location components links found) (h' : fs.LeadsTo location components links' found') :
    links = links' ∧ found = found' := by
  -- what is asked of a component in one case excludes the other cases
  induction h generalizing links' with
  | here => cases h' with
    | here => exact ⟨rfl, rfl⟩
  | stay _ hc _ ih =>
    cases h' with
    | stay _ _ h' => exact ih h'
    | up => rcases hc with hc | hc <;> cases hc
    | down _ hc' => exact absurd hc hc'
    | follow _ hc' => exact absurd hc hc'
  | up _ _ ih =>
    cases h' with
    | stay _ hc => rcases hc with hc | hc <;> cases hc
    | up _ h' => exact ih h'
    | down _ _ hup => exact absurd rfl hup
    | follow _ _ hup => exact absurd rfl hup
  | down _ hc hup hitem hlink _ ih =>
    cases h' with
    | stay _ hc' => exact absurd hc' hc
    | up => exact absurd rfl hup
    | down _ _ _ _ _ h' => exact ih h'
    | follow _ _ _ hitem' =>
      rw [hitem] at hitem'
      exact absurd (Option.some.inj hitem') (hlink _)
  | follow _ hc hup hitem _ ih =>
    cases h' with
    | stay _ hc' => exact absurd hc' hc
    | up => exact absurd rfl hup
    | down _ _ _ hitem' hlink =>
      rw [hitem] at hitem'
      exact absurd (Option.some.inj hitem').symm (hlink _)
    | follow _ _ _ hitem' h' =>
      rw [hitem] at hitem'
      cases hitem'
      obtain ⟨rfl, rfl⟩ := ih h'
      exact ⟨rfl, rfl⟩

/-- **Part by part**: where components lead, the first of them lead to a location on the way, and the others
lead on from there. -/
theorem LeadsTo.split {location found : Location} {first others : List Text} {links : Nat}
    (h : fs.LeadsTo location (first ++ others) links found) :
    ∃ middle before behind, fs.LeadsTo location first before middle ∧
      fs.LeadsTo middle others behind found ∧ links = before + behind := by
  -- the target of a link comes before what is left of the first components
  generalize hcomponents : first ++ others = components at h
  induction h generalizing first with
  | here location =>
    obtain ⟨rfl, rfl⟩ := List.append_eq_nil_iff.mp hcomponents
    exact ⟨location, 0, 0, .here _, .here _, rfl⟩
  | stay hdirectory hc h ih =>
    rcases List.append_eq_cons_iff.mp hcomponents with ⟨rfl, rfl⟩ | ⟨first, rfl, hrest⟩
    · exact ⟨_, 0, _, .here _, .stay hdirectory hc h, (Nat.zero_add _).symm⟩
    · obtain ⟨middle, before, behind, hbefore, hbehind, hlinks⟩ := ih hrest.symm
      exact ⟨middle, before, behind, .stay hdirectory hc hbefore, hbehind, hlinks⟩
  | up hdirectory h ih =>
    rcases List.append_eq_cons_iff.mp hcomponents with ⟨rfl, rfl⟩ | ⟨first, rfl, hrest⟩
    · exact ⟨_, 0, _, .here _, .up hdirectory h, (Nat.zero_add _).symm⟩
    · obtain ⟨middle, before, behind, hbefore, hbehind, hlinks⟩ := ih hrest.symm
      exact ⟨middle, before, behind, .up hdirectory hbefore, hbehind, hlinks⟩
  | down hdirectory hc hup hitem hlink h ih =>
    rcases List.append_eq_cons_iff.mp hcomponents with ⟨rfl, rfl⟩ | ⟨first, rfl, hrest⟩
    · exact ⟨_, 0, _, .here _, .down hdirectory hc hup hitem hlink h, (Nat.zero_add _).symm⟩
    · obtain ⟨middle, before, behind, hbefore, hbehind, hlinks⟩ := ih hrest.symm
      exact ⟨middle, before, behind, .down hdirectory hc hup hitem hlink hbefore, hbehind, hlinks⟩
  | follow hdirectory hc hup hitem h ih =>
    rcases List.append_eq_cons_iff.mp hcomponents with ⟨rfl, rfl⟩ | ⟨first, rfl, rfl⟩
    · exact ⟨_, 0, _, .here _, .follow hdirectory hc hup hitem h, (Nat.zero_add _).symm⟩
    · obtain ⟨middle, before, behind, hbefore, hbehind, hlinks⟩ := ih (List.append_assoc ..)
      exact ⟨middle, before + 1, behind, .follow hdirectory hc hup hitem hbefore, hbehind, by omega⟩

/-! ## The look-up of a file system -/

/-- Where a look-up goes on from a location, the components lead, if this holds of the look-up behind a link. -/
theorem leadsTo_of_descend {follow : Location → List Text → Except Fault Location} {bound : Nat}
    (hfollow : ∀ location components found, follow location components = .ok found →
      ∃ links, links < bound ∧ fs.LeadsTo location components links found)
    {location found : Location} {components : List Text}
    (h : fs.descend follow location components = .ok found) :
    ∃ links, links ≤ bound ∧ fs.LeadsTo location components links found := by
  -- the branches of the look-up are the cases of the relation, in the same order
  induction components generalizing location with
  | nil =>
    cases h
    exact ⟨0, Nat.zero_le _, .here _⟩
  | cons c rest ih =>
    rw [descend] at h
    split at h
    · cases h
    · next hno =>
      have hdirectory : fs.isDirectory location = true := by simpa using hno
      split at h
      · cases h
      · split at h
        · next hc =>
          obtain ⟨links, hle, hrest⟩ := ih h
          exact ⟨links, hle, .stay hdirectory (by simpa using hc) hrest⟩
        · next hc =>
          have hc : ¬ (c = [] ∨ c = Path.dot) := by simpa using hc
          split at h
          · next hup =>
            obtain ⟨links, hle, hrest⟩ := ih h
            rw [beq_iff_eq.mp hup]
            exact ⟨links, hle, .up hdirectory hrest⟩
          · next hup =>
            have hup : c ≠ Path.dotDot := by simpa using hup
            split at h
            · cases h
            · split at h
              · cases h
              · next target hitem =>
                split at h
                · cases h
                · -- the look-up behind the link leads through fewer links
                  obtain ⟨links, hlt, hrest⟩ := hfollow _ _ _ h
                  exact ⟨links + 1, hlt, .follow hdirectory hc hup hitem hrest⟩
              · next item hlink hitem =>
                obtain ⟨links, hle, hrest⟩ := ih h
                refine ⟨links, hle, .down hdirectory hc hup hitem ?_ hrest⟩
                rintro target rfl
                exact hlink target rfl

/-- **Looking up** components finds the location to which they lead through at most the given number of links. -/
theorem leadsTo_of_walkTo {bound : Nat} {location found : Location} {components : List Text}
    (h : fs.walkTo bound location components = .ok found) :
    ∃ links, links ≤ bound ∧ fs.LeadsTo location components links found := by
  induction bound generalizing location found components with
  | zero =>
    rw [walkTo] at h
    refine leadsTo_of_descend ?_ h
    intro location components found hfound
    cases hfound
  | succ bound ih =>
    rw [walkTo] at h
    refine leadsTo_of_descend ?_ h
    intro location components found hfound
    obtain ⟨links, hle, hrest⟩ := ih hfound
    exact ⟨links, Nat.lt_succ_of_le hle, hrest⟩

/-- A path leads to a location through a number of links. -/
def Finds (fs : FileSystem) (path : Text) (links : Nat) (location : Location) : Prop :=
  fs.LeadsTo (start fs.workingDirectory path) (Path.components path) links location

end FileSystem

/-- A disk shows a file system: where it sees a directory, the path leads to one, and it lists names of items in
it. A path that leads through too many links cannot be looked at. It may refuse other paths as well. -/
structure Disk.Shows (disk : Disk) (fs : FileSystem) : Prop where
  listed  : ∀ path names, disk.look path = .ok (.directory names) → ∃ links location,
    fs.Finds path links location ∧ fs.isDirectory location = true ∧
      ∀ name ∈ names, (fs.item? (location ++ [name])).isSome = true
  limited : ∀ path links location, fs.Finds path links location → FileSystem.maxLinks < links →
    ∃ fault, disk.look path = .error fault

namespace FileSystem

variable {fs : FileSystem}

theorem finds_of_resolve {path : Text} {location : Location} (h : fs.resolve path = .ok location) :
    ∃ links, links ≤ maxLinks ∧ fs.Finds path links location := by
  obtain ⟨components, hcomponents, h⟩ := exists_of_bind_eq_ok h
  have hsame : Path.components path = components := by
    unfold components? at hcomponents
    split_ifs at hcomponents
    exact Except.ok.inj hcomponents
  rw [← hsame] at h
  exact leadsTo_of_walkTo h

/-- What a directory lists stands in it. -/
theorem isSome_item?_of_mem_names {location : Location} {name : Text} (h : name ∈ fs.names location) :
    (fs.item? (location ++ [name])).isSome = true := by
  obtain ⟨⟨l, item⟩, hl, hlast⟩ := List.mem_filterMap.mp (mem_of_mem_foldr_insertName h)
  dsimp only at hlast
  split at hlast
  -- the name is the last component of an item below the directory
  · next last hlast' =>
    split at hlast
    · next hdirectory =>
      cases hlast
      have hlocation : l = location ++ [name] := by
        rw [← beq_iff_eq.mp hdirectory]
        exact (List.dropLast_append_getLast? name hlast').symm
      subst hlocation
      rw [item?, if_neg (by simp), ← Option.ne_none_iff_isSome]
      -- such an item is in the list, so that looking it up finds one
      intro hnone
      have hne := List.lookup_eq_none_iff.mp hnone _ hl
      simp at hne
    · cases hlast
  · cases hlast

/-- **A file system is shown by its own disk.** -/
theorem shows_disk (fs : FileSystem) : fs.disk.Shows fs where
  listed := by
    intro path names hlook
    obtain ⟨location, hresolve, hdirectory, rfl⟩ := directory_of_look hlook
    obtain ⟨links, -, hfinds⟩ := finds_of_resolve hresolve
    exact ⟨links, location, hfinds, hdirectory, fun name hname => isSome_item?_of_mem_names hname⟩
  limited := by
    intro path links location hfinds hmany
    simp only [disk]
    cases hresolve : fs.resolve path with
    | error fault => exact ⟨fault, rfl⟩
    | ok found =>
      -- the path would lead there through few links as well
      obtain ⟨few, hfew, hfinds'⟩ := finds_of_resolve hresolve
      have hsame := (hfinds.unique hfinds').1
      omega

end FileSystem

/-! ## The rank of a directory -/

namespace FileSystem

variable {fs : FileSystem}

/-- What grows with every name of a walk: a link counts for more than any way down. -/
def rank (fs : FileSystem) (links : Nat) (location : Location) : Nat := links * (fs.depth + 1) + location.length

theorem le_foldr_max {α : Type} {f : α → Nat} {l : List α} {a : α} (h : a ∈ l) :
    f a ≤ l.foldr (fun a n => max (f a) n) 0 := by
  induction l with
  | nil => cases h
  | cons first l ih =>
    rw [List.foldr_cons]
    rcases List.mem_cons.mp h with rfl | hlater
    · exact Nat.le_max_left _ _
    · exact Nat.le_trans (ih hlater) (Nat.le_max_right _ _)

theorem mem_items_of_item? {location : Location} {item : Item} (hne : location ≠ [])
    (h : fs.item? location = some item) : (location, item) ∈ fs.items := by
  rw [item?, if_neg (by simpa using hne)] at h
  obtain ⟨before, after, hitems, -⟩ := List.lookup_eq_some_iff.mp h
  rw [hitems]
  exact List.mem_append_right _ List.mem_cons_self

theorem length_le_depth_of_isDirectory {location : Location} (h : fs.isDirectory location = true) :
    location.length ≤ fs.depth := by
  by_cases hne : location = []
  · rw [hne]
    exact Nat.zero_le _
  · exact le_foldr_max (f := fun item : Location × Item => item.1.length)
      (mem_items_of_item? hne (beq_iff_eq.mp h))

/-- No directory that can be looked at has a larger rank. -/
theorem rank_lt_of_le {location : Location} {links : Nat} (hlinks : links ≤ maxLinks)
    (h : fs.isDirectory location = true) : fs.rank links location < (maxLinks + 1) * (fs.depth + 1) := by
  have hlength := length_le_depth_of_isDirectory h
  have hmul := Nat.mul_le_mul_right (fs.depth + 1) hlinks
  rw [rank, Nat.add_mul, Nat.one_mul]
  omega

/-- **Step.** An entry of a directory has a larger rank: it stands below the directory, or behind a link. -/
theorem LeadsTo.rank_lt {location found : Location} {name : Text} {links : Nat} (hname : Path.IsEntry name)
    (h : fs.LeadsTo location [name] links found) (before : Nat) :
    fs.rank before location < fs.rank (before + links) found := by
  cases h with
  | stay _ hc => exact absurd hc (not_or.mpr hname.1.2)
  | up => exact absurd rfl hname.2
  | down _ _ _ _ _ h =>
    cases h with
    | here =>
      rw [Nat.add_zero before, rank, rank, List.length_append, List.length_singleton]
      omega
  | @follow _ _ _ _ links _ hdirectory =>
    -- whatever stands behind the link, the directory before it was not deeper than the deepest one
    have hlength := length_le_depth_of_isDirectory hdirectory
    have hmul : (before + 1) * (fs.depth + 1) ≤ (before + (links + 1)) * (fs.depth + 1) :=
      Nat.mul_le_mul_right _ (by omega)
    rw [rank, rank]
    rw [Nat.add_mul, Nat.one_mul] at hmul
    omega

end FileSystem

theorem Path.isRooted_join (directory : Text) {name : Text} (hname : Path.IsSlashFree name) :
    FileSystem.isRooted (join directory name) = FileSystem.isRooted directory := by
  cases directory with
  | nil =>
    cases name with
    | nil => rfl
    | cons c name => exact hname c List.mem_cons_self
  | cons c directory =>
    rw [join]
    split <;> rfl

/-- **The rank grows** from a directory to every directory that stands in it, or behind a link in it. -/
theorem FileSystem.Finds.rank_lt {fs : FileSystem} {directory name : Text} (hname : Path.IsEntry name)
    {links links' : Nat} {location found : Location} (h : fs.Finds directory links location)
    (h' : fs.Finds (Path.join directory name) links' found) : fs.rank links location < fs.rank links' found := by
  obtain ⟨before, hbefore, hjoin⟩ := Path.exists_components_join directory
  have hlocation : fs.LeadsTo (start fs.workingDirectory directory) before links location := by
    rw [Finds] at h
    rcases hbefore with hsame | hslash
    · rw [hsame] at h
      exact h
    · -- behind a slash at the end nothing is left to do
      rw [hslash] at h
      obtain ⟨middle, first, last, hfirst, hlast, rfl⟩ := h.split
      cases hlast with
      | stay _ _ hlast =>
        cases hlast with
        | here => exact hfirst
      | down _ hc => exact absurd (.inl rfl) hc
      | follow _ hc => exact absurd (.inl rfl) hc
  -- the joined path leads through the same location
  have hstart : start fs.workingDirectory (Path.join directory name) = start fs.workingDirectory directory := by
    rw [start, start, Path.isRooted_join directory hname.1.1]
  rw [Finds, hstart, hjoin name hname.1.1] at h'
  obtain ⟨middle, first, last, hfirst, hlast, rfl⟩ := h'.split
  obtain ⟨rfl, rfl⟩ := hlocation.unique hfirst
  exact hlast.rank_lt hname links

/-! ## Walks end -/

/-- The length of the longest name that can be listed. -/
def FileSystem.longestName (fs : FileSystem) : Nat :=
  fs.items.foldr (fun item n => max ((item.1.getLast?.map List.length).getD 0) n) 0

theorem FileSystem.length_le_longestName {fs : FileSystem} {location : Location} {name : Text}
    (h : (fs.item? (location ++ [name])).isSome = true) : name.length ≤ fs.longestName := by
  obtain ⟨item, hitem⟩ := Option.isSome_iff_exists.mp h
  have hle := le_foldr_max (f := fun item : Location × Item => (item.1.getLast?.map List.length).getD 0)
    (mem_items_of_item? (by simp) hitem)
  rw [longestName]
  simpa using hle

namespace Disk.Shows

variable {fs : FileSystem} {disk : Disk}

theorem length_of_listed (h : disk.Shows fs) : disk.Lists fun name => name.length ≤ fs.longestName := by
  intro path names hlook name hname
  obtain ⟨links, location, -, -, hitems⟩ := h.listed path names hlook
  exact FileSystem.length_le_longestName (hitems name hname)

/-- A directory that is seen has a rank below the bound. -/
theorem exists_rank (h : disk.Shows fs) {path : Text} {names : List Text}
    (hlook : disk.look path = .ok (.directory names)) : ∃ links location, fs.Finds path links location ∧
      fs.rank links location < (FileSystem.maxLinks + 1) * (fs.depth + 1) := by
  obtain ⟨links, location, hfinds, hdirectory, -⟩ := h.listed path names hlook
  refine ⟨links, location, hfinds, FileSystem.rank_lt_of_le ?_ hdirectory⟩
  by_contra hmany
  obtain ⟨fault, hfault⟩ := h.limited path links location hfinds (Nat.lt_of_not_le hmany)
  rw [hlook] at hfault
  cases hfault

/-- **Run.** A walk ends within a depth that reaches from the rank of its root to the bound. -/
theorem endsWithin_of_rank (h : disk.Shows fs) (hnames : disk.Lists Path.IsEntry) {depth : Nat} {path : Text}
    (hrank : ∀ links location, fs.Finds path links location →
      (FileSystem.maxLinks + 1) * (fs.depth + 1) ≤ fs.rank links location + depth) :
    Walk.endsWithin disk (depth + 1) path = true := by
  -- the invariant: what is left of the depth reaches from the rank of the path to the bound
  induction depth generalizing path with
  | zero =>
    rw [Walk.endsWithin_succ_iff]
    intro names hlook
    -- no directory has so large a rank
    obtain ⟨links, location, hfinds, hlt⟩ := h.exists_rank hlook
    have hle := hrank links location hfinds
    omega
  | succ depth ih =>
    rw [Walk.endsWithin_succ_iff]
    intro names hlook name hname
    obtain ⟨links, location, hfinds, -⟩ := h.exists_rank hlook
    -- the name adds to the rank at least what it takes from the depth
    refine ih fun links' location' hfinds' => ?_
    have hle := hrank links location hfinds
    have hlt := hfinds.rank_lt (hnames path names hlook name hname) hfinds'
    omega

theorem endsWithin_enough (h : disk.Shows fs) (hnames : disk.Lists Path.IsEntry) (root : Text) :
    Walk.endsWithin disk (Walk.enough fs) root = true :=
  h.endsWithin_of_rank hnames fun _ _ _ => Nat.le_add_left _ _

end Disk.Shows

theorem Path.length_join_le (directory name : Text) :
    (join directory name).length ≤ directory.length + (name.length + 1) := by
  have hslash : ("/" : Text).length = 1 := rfl
  rw [join]
  split
  · rw [List.length_append]
    omega
  · rw [List.length_append, List.length_append, hslash]
    omega

/-- A walk that ends within a depth reaches no path with more names than this behind the root. -/
theorem Walk.length_of_reachable {disk : Disk} {longest : Nat} (hnames : disk.Lists fun name => name.length ≤ longest)
    {depth : Nat} {root p : Text} (hends : endsWithin disk depth root = true) (h : Reachable disk root p) :
    p.length ≤ root.length + depth * (longest + 1) := by
  induction depth generalizing root with
  | zero => cases hends
  | succ depth ih =>
    rcases h.eq_or_below with rfl | ⟨names, name, hlook, hname, hbelow⟩
    · exact Nat.le_add_right _ _
    · have hle := ih (endsWithin_succ_iff.mp hends names hlook name hname) hbelow
      have hjoin := Path.length_join_le root name
      have hlongest := hnames root names hlook name hname
      rw [Nat.succ_mul]
      omega

namespace Extraction

/-- **Walks end**, whatever the links are. Let a disk show a file system, which is finite: where it sees a
directory there is one, and a path that leads through more links than allowed cannot be looked at. Directories
list neither themselves nor their parents, and no names with slashes. Then the walk from every root ends. It
reports the same for every depth from `Walk.enough` on, and an extraction collects the same. No path that it
reaches is longer than the root and as many of the longest names. -/
theorem walk_ends (fs : FileSystem) (disk : Disk) (hdisk : disk.Shows fs) (hnames : disk.Lists Path.IsEntry)
    (root : Text) :
    Walk.Ends disk root ∧
    (∀ registry depth, Walk.enough fs ≤ depth →
      walk registry disk depth root = walk registry disk (Walk.enough fs) root) ∧
    (∀ (x : Extraction) catalog depth, Walk.enough fs ≤ depth →
      x.collect disk depth root catalog = x.collect disk (Walk.enough fs) root catalog) ∧
    ∀ p, Walk.Reachable disk root p → p.length ≤ root.length + Walk.enough fs * (fs.longestName + 1) := by
  have hends := hdisk.endsWithin_enough hnames
  refine ⟨Walk.ends_of_endsWithin (hends root), ?_, ?_, ?_⟩
  · intro registry depth hdepth
    rw [walk, walk, Walk.visits_eq_of_endsWithin hdepth (hends root)]
  · intro x catalog depth hdepth
    -- an extraction walks from the normalised path
    rw [collect, collect, Walk.visits_eq_of_endsWithin hdepth (hends (Path.normalize root))]
  · intro p hp
    exact Walk.length_of_reachable hdisk.length_of_listed (hends root) hp

/-- Two directories with links to themselves, to their parents and to each other. -/
def linkCycles : FileSystem where
  items := [
    (["d"], .directory),
    (["d", "a.js"], .file []),
    (["d", "again"], .link "."),
    (["d", "across"], .link "../e"),
    (["d", "out"], .link ".."),
    (["e"], .directory),
    (["e", "back"], .link "../d")]

/-- The walk from one of the directories ends, although every link in it is listed; no path that it visits has
more than 869 code points. -/
theorem walk_ends_linkCycles :
    linkCycles.disk.Shows linkCycles ∧ linkCycles.disk.Lists Path.IsEntry ∧
    linkCycles.resolve "d/again/across/back" = .ok ["d"] ∧
    linkCycles.names ["d"] = ["a.js", "across", "again", "out"] ∧
    Walk.Ends linkCycles.disk "d" ∧
    ∀ p, Walk.Reachable linkCycles.disk "d" p → p.length ≤ 869 := by
  have hdisk := linkCycles.shows_disk
  have hnames : linkCycles.disk.Lists Path.IsEntry := FileSystem.lists_disk (by decide)
  obtain ⟨hends, -, -, hlength⟩ := walk_ends linkCycles linkCycles.disk hdisk hnames "d"
  have hbound : ("d" : Text).length + Walk.enough linkCycles * (linkCycles.longestName + 1) = 869 := by
    decide +kernel
  rw [hbound] at hlength
  exact ⟨hdisk, hnames, by decide +kernel, by decide +kernel, hends, hlength⟩

end Extraction

end Phrasebook
