import Phrasebook.Files.Walk

/-!
# Phrasebook — paths that can be used

The system takes a text as a path unless it holds the code point zero or a surrogate that stands for no
byte; `Path.check` refuses these texts. Normalising a path and joining a name to it only rearrange code
points and add slashes and dots, so a walk that starts at a usable path meets only usable paths, as long
as the names that directories list are usable.

Main results:

* `Path.check_eq_ok_iff` — what `Path.check` accepts;
* `Path.mem_normalize` — the code points of a normalised path;
* `Walk.found_induction` — what a walk carries from the root to the files that it finds;
* `Walk.usable_of_found` — the paths of the files that a walk finds.
-/

namespace Phrasebook

namespace Path

/-! ## What can be a path -/

/-- A text that the system takes as a path. -/
def Usable (path : Text) : Prop := ∀ c ∈ path, c.isUnpathable = false ∧ c.val ≠ 0

instance (path : Text) : Decidable (Usable path) :=
  inferInstanceAs (Decidable (∀ c ∈ path, c.isUnpathable = false ∧ c.val ≠ 0))

/-- A path is accepted exactly if the system can encode each of its code points. -/
@[simp] theorem check_eq_ok_iff {path : Text} : check path = .ok () ↔ Usable path := by
  rw [check, Text.surrogatesAt?]
  cases hfound : path.findIdx? CodePoint.isUnpathable with
  | some offset =>
    simp only [Option.map_some, reduceCtorEq, false_iff]
    intro husable
    -- in a usable text nothing is found
    have hnone : path.findIdx? CodePoint.isUnpathable = none := by
      rw [List.findIdx?_eq_none_iff]
      intro c hc
      exact (husable c hc).1
    rw [hnone] at hfound
    cases hfound
  | none =>
    rw [List.findIdx?_eq_none_iff] at hfound
    simp only [Option.map_none]
    split
    -- all code points can be encoded, and only a null character can be in the way
    · next hnul =>
      simp only [reduceCtorEq, false_iff]
      intro husable
      obtain ⟨c, hc, hzero⟩ := List.any_eq_true.mp hnul
      exact (husable c hc).2 (beq_iff_eq.mp hzero)
    · next hnul =>
      refine ⟨fun _ c hc => ⟨hfound c hc, ?_⟩, fun _ => rfl⟩
      intro hzero
      exact hnul (List.any_eq_true.mpr ⟨c, hc, beq_iff_eq.mpr hzero⟩)

/-- Only a surrogate makes a text without the code point zero unusable. -/
theorem unencodable_of_check_eq_error {path : Text} {error : Error} (hnul : ∀ c ∈ path, c.val ≠ 0)
    (h : check path = .error error) :
    ∃ offset surrogates, error = .unencodable offset surrogates := by
  rw [check] at h
  split at h
  · next offset surrogates _ =>
    cases h
    exact ⟨offset, surrogates, rfl⟩
  · split at h
    · next hzero =>
      obtain ⟨c, hc, hc'⟩ := List.any_eq_true.mp hzero
      exact absurd (beq_iff_eq.mp hc') (hnul c hc)
    · cases h

/-! ## Normalised and joined paths -/

/-- The components of a path are parts of it. -/
theorem mem_of_mem_component {path part : Text} {c : CodePoint} (hpart : part ∈ components path)
    (hc : c ∈ part) : c ∈ path := by
  unfold components at hpart
  induction path generalizing part with
  | nil =>
    rw [Text.splitOn, List.mem_singleton] at hpart
    rw [hpart] at hc
    cases hc
  | cons d rest ih =>
    rw [Text.splitOn] at hpart
    split at hpart
    · rcases List.mem_cons.mp hpart with rfl | hrest
      · cases hc
      · exact List.mem_cons_of_mem _ (ih hrest hc)
    · split at hpart
      · next first others hsplit =>
        rw [hsplit] at ih
        rcases List.mem_cons.mp hpart with rfl | hothers
        · -- the first part of the rest, with one more code point
          rcases List.mem_cons.mp hc with rfl | hc
          · exact List.mem_cons_self
          · exact List.mem_cons_of_mem _ (ih List.mem_cons_self hc)
        · exact List.mem_cons_of_mem _ (ih (List.mem_cons_of_mem _ hothers) hc)
      · rw [List.mem_singleton] at hpart
        rw [hpart, List.mem_singleton] at hc
        rw [hc]
        exact List.mem_cons_self

/-- What remains of a path was kept before, or is one of its components, neither empty nor `.`. -/
theorem mem_of_mem_reduce {rooted : Bool} {kept parts : List Text} {part : Text}
    (h : part ∈ reduce rooted kept parts) :
    part ∈ kept ∨ (part ∈ parts ∧ part ≠ [] ∧ part ≠ dot) := by
  have hlater : ∀ {c : Text} {rest : List Text}, part ∈ rest ∧ part ≠ [] ∧ part ≠ dot →
      part ∈ c :: rest ∧ part ≠ [] ∧ part ≠ dot :=
    fun h => ⟨List.mem_cons_of_mem _ h.1, h.2⟩
  -- a component that is kept was not dropped
  have hnew : ∀ {c : Text} {rest kept : List Text}, ¬(c == [] || c == dot) = true →
      part ∈ c :: kept ∨ (part ∈ rest ∧ part ≠ [] ∧ part ≠ dot) →
      part ∈ kept ∨ (part ∈ c :: rest ∧ part ≠ [] ∧ part ≠ dot) := by
    intro c rest kept hdrop hpart
    simp only [Bool.or_eq_true, beq_iff_eq, not_or] at hdrop
    rcases hpart with hkept | hrest
    · rcases List.mem_cons.mp hkept with rfl | hkept
      · exact .inr ⟨List.mem_cons_self, hdrop⟩
      · exact .inl hkept
    · exact .inr (hlater hrest)
  fun_induction reduce rooted kept parts with
  | case1 kept => exact .inl h
  | case2 kept c rest hdrop ih => exact (ih h).imp_right hlater
  | case3 c rest hdrop hup hrooted ih => exact (ih h).imp_right hlater
  | case4 c rest hdrop hup hrooted ih => exact hnew hdrop (ih h)
  | case5 c rest hdrop hup last before hlast ih => exact hnew hdrop (ih h)
  | case6 c rest hdrop hup last before hlast ih => exact (ih h).imp (List.mem_cons_of_mem _) hlater
  | case7 kept c rest hdrop hup ih => exact hnew hdrop (ih h)

/-- What stands in joined parts stands in one of them or in the separator. -/
theorem mem_joinWith {separator : Text} {parts : List Text} {c : CodePoint}
    (h : c ∈ Text.joinWith separator parts) : c ∈ separator ∨ ∃ part ∈ parts, c ∈ part := by
  fun_induction Text.joinWith separator parts with
  | case1 => cases h
  | case2 t => exact .inr ⟨t, List.mem_singleton_self t, h⟩
  | case3 t ts _ ih =>
    rw [List.mem_append, List.mem_append] at h
    rcases h with (ht | hseparator) | hrest
    · exact .inr ⟨t, List.mem_cons_self, ht⟩
    · exact .inl hseparator
    · rcases ih hrest with hseparator | ⟨part, hpart, hc⟩
      · exact .inl hseparator
      · exact .inr ⟨part, List.mem_cons_of_mem _ hpart, hc⟩

/-- **Normalised paths.** Every code point is one of the path, a slash or a dot. -/
theorem mem_normalize {path : Text} {c : CodePoint} (h : c ∈ normalize path) :
    c ∈ path ∨ c = .ofChar '/' ∨ c = .ofChar '.' := by
  rw [normalize] at h
  split at h
  · exact .inr (.inr (List.mem_singleton.mp h))
  · -- the leading slashes, then the components that remain with slashes between them
    rcases List.mem_append.mp h with hslash | hjoined
    · exact .inr (.inl (List.eq_of_mem_replicate hslash))
    · rcases mem_joinWith hjoined with hseparator | ⟨part, hpart, hc⟩
      · exact .inr (.inl (List.mem_singleton.mp hseparator))
      · rw [List.mem_reverse] at hpart
        rcases mem_of_mem_reduce hpart with hkept | ⟨hpart, -⟩
        · cases hkept
        · exact .inl (mem_of_mem_component hpart hc)

/-- What holds of the code points of a path, of slashes and of dots holds of those of the normalised path. -/
theorem forall_mem_normalize {P : CodePoint → Prop} (hslash : P (.ofChar '/')) (hdot : P (.ofChar '.'))
    {path : Text} (hpath : ∀ c ∈ path, P c) : ∀ c ∈ normalize path, P c := by
  intro c hc
  rcases mem_normalize hc with hc | rfl | rfl
  · exact hpath c hc
  · exact hslash
  · exact hdot

theorem val_ne_zero_of_mem_normalize {path : Text} (hnul : ∀ c ∈ path, c.val ≠ 0) :
    ∀ c ∈ normalize path, c.val ≠ 0 :=
  forall_mem_normalize (by decide) (by decide) hnul

theorem Usable.normalize {path : Text} (h : Usable path) : Usable (normalize path) :=
  forall_mem_normalize (by decide) (by decide) h

/-- What holds of the code points of a directory, of a name and of the slash holds of the joined path. -/
theorem forall_mem_join {P : CodePoint → Prop} (hslash : P (.ofChar '/')) {directory name : Text}
    (hdirectory : ∀ c ∈ directory, P c) (hname : ∀ c ∈ name, P c) : ∀ c ∈ join directory name, P c := by
  intro c hc
  rw [join] at hc
  split at hc
  · rcases List.mem_append.mp hc with hc | hc
    · exact hdirectory c hc
    · exact hname c hc
  · rw [List.mem_append, List.mem_append] at hc
    rcases hc with (hc | hc) | hc
    · exact hdirectory c hc
    · rw [List.mem_singleton.mp hc]
      exact hslash
    · exact hname c hc

end Path

/-! ## What a walk finds -/

/-- Directories list only names with a property. -/
def Disk.Lists (disk : Disk) (Q : Text → Prop) : Prop :=
  ∀ path names, disk.look path = .ok (.directory names) → ∀ name ∈ names, Q name

/-- Directories list only names that can be paths. -/
def Disk.ListsUsable (disk : Disk) : Prop :=
  ∀ path names, disk.look path = .ok (.directory names) → ∀ name ∈ names, Path.Usable name

/-- Sorting names makes up none. -/
theorem FileSystem.mem_of_mem_foldr_insertName {name : Text} {names : List Text}
    (h : name ∈ names.foldr insertName []) : name ∈ names := by
  induction names with
  | nil => cases h
  | cons n names ih =>
    -- insertion adds the name that is inserted
    have hinsert : ∀ sorted : List Text, name ∈ insertName n sorted → name = n ∨ name ∈ sorted := by
      intro sorted hname
      induction sorted with
      | nil => exact .inl (List.mem_singleton.mp hname)
      | cons m sorted ihs =>
        rw [insertName] at hname
        split at hname
        · exact List.mem_cons.mp hname
        · rcases List.mem_cons.mp hname with rfl | hrest
          · exact .inr List.mem_cons_self
          · exact (ihs hrest).imp_right (List.mem_cons_of_mem _)
    rcases hinsert _ h with rfl | hrest
    · exact List.mem_cons_self
    · exact List.mem_cons_of_mem _ (ih hrest)

/-- A computation succeeds exactly if it has a result. -/
theorem isOk_iff {ε α : Type} {e : Except ε α} : e.isOk = true ↔ ∃ a, e = .ok a := by
  cases e with
  | ok a => simp [Except.isOk, Except.toBool]
  | error e => simp [Except.isOk, Except.toBool]

/-- A step that leads to a result goes on from a result of its first part. -/
theorem exists_of_bind_eq_ok {ε α β : Type} {first : Except ε α} {next : α → Except ε β} {b : β}
    (h : first >>= next = .ok b) : ∃ a, first = .ok a ∧ next a = .ok b := by
  cases first with
  | error e => cases h
  | ok a => exact ⟨a, rfl, h⟩

/-- A file system shows a directory where a path leads to one. -/
theorem FileSystem.directory_of_look {fs : FileSystem} {path : Text} {names : List Text}
    (h : fs.disk.look path = .ok (.directory names)) :
    ∃ location, fs.resolve path = .ok location ∧ fs.isDirectory location = true ∧ names = fs.names location := by
  obtain ⟨location, hresolve, h⟩ := exists_of_bind_eq_ok h
  split at h
  · cases h
  · next hdirectory =>
    split at h
    · cases h
      exact ⟨location, hresolve, by simpa using hdirectory, rfl⟩
    · cases h

/-- What holds of the last names of all locations holds of the names that a file system lists. -/
theorem FileSystem.lists_disk_of_last {fs : FileSystem} {Q : Text → Prop}
    (h : ∀ item ∈ fs.items, ∀ name ∈ item.1.getLast?, Q name) : fs.disk.Lists Q := by
  intro path names hlook name hname
  obtain ⟨location, -, -, rfl⟩ := directory_of_look hlook
  have hitem := mem_of_mem_foldr_insertName hname
  obtain ⟨⟨l, item⟩, hl, hlast⟩ := List.mem_filterMap.mp hitem
  apply h (l, item) hl
  dsimp only at hlast
  split at hlast
  · next last hlast' =>
    split at hlast
    · cases hlast
      exact hlast'
    · cases hlast
  · cases hlast

/-- What holds of all names of a file system holds of those that it lists. -/
theorem FileSystem.lists_disk {fs : FileSystem} {Q : Text → Prop}
    (h : ∀ item ∈ fs.items, ∀ name ∈ item.1, Q name) : fs.disk.Lists Q :=
  lists_disk_of_last fun item hitem name hname => h item hitem name (List.mem_of_getLast? hname)

/-- A file system lists usable names if all its names are usable. -/
theorem FileSystem.listsUsable_disk {fs : FileSystem}
    (h : ∀ item ∈ fs.items, ∀ name ∈ item.1, Path.Usable name) : fs.disk.ListsUsable :=
  lists_disk h

/-- **Walks.** What holds of the root, and of every name in a directory of which it holds, holds of every
path that a walk finds. Its extension is registered. -/
theorem Walk.found_induction {P : Text → Prop} {disk : Disk}
    (hstep : ∀ directory names, disk.look directory = .ok (.directory names) → P directory →
      ∀ name ∈ names, P (Path.join directory name))
    {registered : Text → Bool} {depth : Nat} {root path : Text} (hroot : P root)
    (h : .found path ∈ visits disk registered depth root) :
    P path ∧ registered (Path.extension path) = true := by
  induction depth generalizing root with
  | zero => cases h
  | succ depth ih =>
    rw [visits] at h
    -- a path is visited as what stands there: nothing, a file or a directory
    split at h
    · cases List.mem_singleton.mp h
    · split at h
      · next hregistered =>
        cases List.mem_singleton.mp h
        exact ⟨hroot, hregistered⟩
      · cases List.mem_singleton.mp h
    · next names hlook =>
      obtain ⟨name, hname, hbelow⟩ := List.mem_flatMap.mp h
      -- the names of a directory are joined to its path
      exact ih (hstep root names hlook hroot name hname) hbelow

/-- What holds of the code points of the root and of all names holds of those of every path that a walk
finds. -/
theorem Walk.forall_mem_of_found {P : CodePoint → Prop} (hslash : P (.ofChar '/')) {disk : Disk}
    (hdisk : disk.Lists fun name => ∀ c ∈ name, P c) {registered : Text → Bool} {depth : Nat}
    {root path : Text} (hroot : ∀ c ∈ root, P c) (h : .found path ∈ visits disk registered depth root) :
    ∀ c ∈ path, P c := by
  refine (found_induction (P := fun path => ∀ c ∈ path, P c) ?_ hroot h).1
  intro directory names hlook hdirectory name hname
  exact Path.forall_mem_join hslash hdirectory (hdisk directory names hlook name hname)

/-- **Found paths.** A walk from a usable path finds only files with usable paths. -/
theorem Walk.usable_of_found {disk : Disk} (hdisk : disk.ListsUsable) {registered : Text → Bool}
    {depth : Nat} {root path : Text} (hroot : Path.Usable root)
    (h : .found path ∈ visits disk registered depth root) : Path.Usable path :=
  forall_mem_of_found (by decide) hdisk hroot h

end Phrasebook
