import Phrasebook.Proofs.Outcome
import Phrasebook.Proofs.TidyGrammar

/-!
# Phrasebook — what reaches a catalog

Everything that a catalog holds comes from a marked call of a source that was read. What can be said of
the nodes of a kept tree is decided where a node is made, and what can be said of the entries of a
catalog is decided where a message starts an entry or is merged into one. This module carries such facts
through lowering, merging and the walk, once for all properties.

Main results:

* `Script.Lower.made_of_lower` — how the nodes of a kept tree are made;
* `Extraction.forall_entries_collect` — what holds of the messages of all marked calls, and is kept by
  merging, holds of the catalog of an extraction.
-/

namespace Phrasebook

namespace Script.Lower

/-! ## Nodes of kept trees -/

/-- How a node is made. Literal texts are the values of string literals, and the comments of a call are
those of a tidy tree. -/
inductive Made : Node → Prop
  | name (line : Nat) (name : Text) : Made (.identifier line name)
  | member (line : Nat) (object : Node) (property : Text) : Made (.member line object property)
  | value (line : Nat) (v : Value) (hscalar : v.isScalar = true) (hv : v.text? = none) :
      Made (.literal line v)
  | text (line : Nat) (t body : Text) (ht : Escape.unescape body = .ok t) : Made (.literal line (.text t))
  | call (line : Nat) (callee : Node) (arguments : List Node) (trees : List Tree)
      (htrees : Tree.AllTidy trees) : Made (.call line callee arguments (leadingComments trees))
  | other (line : Nat) (kind : Kind) (parts : List Node) : Made (.other line kind parts)

theorem text?_number (literal : Text) : (Value.number literal).text? = none := by
  rw [Value.number]
  split
  · rfl
  · split <;> rfl

/-- What a plan builds is the only node that it asked for, or a node made in one of these ways. -/
theorem made_of_build {t : Tree} (ht : t.Tidy) {parts : List Node} {n : Node}
    (hlength : (plan t).pending.length = parts.length) (h : (plan t).build parts = .ok n) :
    parts = [n] ∨ Made n := by
  cases form_plan t with
  | keep _ hbuild =>
    rw [hbuild] at h
    cases h
    exact .inr (.other _ _ _)
  | leaf hkind =>
    simp only [List.mem_cons, List.not_mem_nil, or_false] at hkind
    rcases hkind with hkind | hkind | hkind | hkind | hkind | hkind | hkind <;>
      simp only [plan, hkind, leaf, Except.ok.injEq] at h <;> rw [← h]
    · exact .inr (.name _ _)
    · exact .inr (.name _ _)
    · exact .inr (.name _ _)
    · exact .inr (.value _ _ (Value.isScalar_number _) (text?_number _))
    · exact .inr (.value _ _ rfl rfl)
    · exact .inr (.value _ _ rfl rfl)
    · exact .inr (.value _ _ rfl rfl)
  | quoted _ hpending hbuild =>
    rw [hpending] at hlength
    rw [List.length_eq_zero_iff.mp hlength.symm, hbuild] at h
    -- where the literal has no value, nothing is built
    cases hvalue : Escape.unescape (Text.ofChars (t.spelling.drop 1).dropLast) with
    | error failure =>
      rw [hvalue] at h
      cases h
    | ok value =>
      rw [hvalue] at h
      cases h
      exact .inr (.text _ _ _ hvalue)
  | single inner _ _ hpending hbuild =>
    rw [hpending] at hlength
    obtain ⟨node, rfl⟩ := List.length_eq_one_iff.mp hlength.symm
    rw [hbuild] at h
    cases h
    exact .inl rfl
  | member object property _ _ _ hpending hbuild =>
    rw [hpending] at hlength
    obtain ⟨node, rfl⟩ := List.length_eq_one_iff.mp hlength.symm
    rw [hbuild] at h
    cases h
    exact .inr (.member _ _ _)
  | call callee arguments _ _ harguments _ hpending hbuild =>
    rw [hpending] at hlength
    cases parts with
    | nil => cases hlength
    | cons node nodes =>
      rw [hbuild] at h
      cases h
      exact .inr (.call _ _ _ _ (ht.children arguments (Tree.child?_mem harguments)).children)

/-- What a plan builds is the only node that it asked for, or has its children among those. -/
theorem children_of_build {t : Tree} {parts : List Node} {n : Node}
    (hlength : (plan t).pending.length = parts.length) (h : (plan t).build parts = .ok n) :
    parts = [n] ∨ ∀ c ∈ n.children, c ∈ parts := by
  have hbuilt := built hlength
  rw [h] at hbuilt
  generalize hresult : Except.ok n = result at hbuilt
  cases hbuilt with
  | single node =>
    cases hresult
    exact .inl rfl
  -- the plan of a literal fails where the literal has no value
  | quoted _ =>
    cases hvalue : Escape.unescape (Text.ofChars (t.spelling.drop 1).dropLast) with
    | error failure =>
      rw [hvalue] at hresult
      cases hresult
    | ok value =>
      rw [hvalue] at hresult
      cases hresult
      exact .inr fun c hc => by cases hc
  | _ =>
    cases hresult
    exact .inr fun c hc => hc

/-- **All nodes of a kept tree** are made in one of the ways above. -/
theorem made_of_lower {t : Tree} {root : Node} (ht : t.Tidy) (h : lower t = .ok root) :
    ∀ n ∈ root.preorder, Made n := by
  revert ht
  refine lower_induction (motive := fun t root => t.Tidy → ∀ n ∈ root.preorder, Made n) ?_ h
  intro t parts root hparts hbuild ht
  -- what the plan asks for stands below the tree, and is tidy with it
  have hpending : ∀ c ∈ (plan t).pending, c.Tidy :=
    fun c hc s hs => ht s (mem_preorder_of_mem_pending hc hs)
  have hbelow : ∀ m ∈ parts, ∀ n ∈ m.preorder, Made n := by
    clear hbuild
    generalize (plan t).pending = pending at hparts hpending
    induction hparts with
    | nil => simp
    | cons hfirst _ ih =>
      obtain ⟨htidy, hothers⟩ := List.forall_mem_cons.mp hpending
      exact List.forall_mem_cons.mpr ⟨hfirst.2 htidy, ih hothers⟩
  -- a plan that passes on the node it asked for adds no node of its own
  rcases children_of_build hparts.length_eq hbuild with rfl | hchildren
  · exact hbelow root List.mem_cons_self
  rcases made_of_build ht hparts.length_eq hbuild with rfl | hroot
  · exact hbelow root List.mem_cons_self
  -- every other node is the root or stands below one of the parts
  intro n hn
  rw [Node.preorder_eq, Node.preorderAll_eq_flatMap] at hn
  rcases List.mem_cons.mp hn with rfl | hn
  · exact hroot
  · obtain ⟨c, hc, hn⟩ := List.mem_flatMap.mp hn
    exact hbelow c (hchildren c hc) n hn

/-- What holds of the comments of every argument list holds of those of a node. -/
theorem Made.forall_comments {P : Text → Prop}
    (hP : ∀ trees, Tree.AllTidy trees → ∀ line ∈ leadingComments trees, P line) {n : Node} (h : Made n) :
    ∀ line ∈ n.comments, P line := by
  cases h with
  | call line callee arguments trees htrees => exact hP trees htrees
  | _ => exact List.forall_mem_nil _

/-- What holds of the lines of every comment before the arguments holds of the leading comments. -/
theorem forall_leadingComments {P : Text → Prop} {trees : List Tree}
    (h : ∀ t ∈ trees, t.kind.isComment = true → ∀ line ∈ Comment.lines (Text.ofChars t.spelling), P line) :
    ∀ line ∈ leadingComments trees, P line := by
  induction trees with
  | nil => exact List.forall_mem_nil _
  | cons t ts ih =>
    obtain ⟨ht, hts⟩ := List.forall_mem_cons.mp h
    rw [leadingComments]
    split
    · next hkind => exact List.forall_mem_append.mpr ⟨ht hkind, ih hts⟩
    · split
      · exact List.forall_mem_nil _
      · exact ih hts

end Script.Lower

/-! ## Entries of catalogs -/

namespace Catalog

variable {M : Message → Prop} {E : Entry → Prop}

/-- **Step.** A property of entries that a message with the property `M` starts, and that is kept where
one is merged in, is kept by adding one. -/
theorem forall_entries_add (hstart : ∀ m, M m → E (.ofMessage m)) (hmerge : ∀ e m, E e → M m → E (e.merge m))
    {c : Catalog} (hc : ∀ e ∈ c.entries, E e) {m : Message} (hm : M m) :
    ∀ e ∈ (c.add m).entries, E e := by
  intro e he
  rw [add] at he
  split at he
  · obtain ⟨old, hold, rfl⟩ := List.mem_map.mp he
    split
    · exact hmerge old m (hc old hold) hm
    · exact hc old hold
  · rcases List.mem_append.mp he with hold | hnew
    · exact hc e hold
    · rw [List.mem_singleton.mp hnew]
      exact hstart m hm

/-- **Run.** It is kept by adding any number of them. -/
theorem forall_entries_addAll (hstart : ∀ m, M m → E (.ofMessage m))
    (hmerge : ∀ e m, E e → M m → E (e.merge m)) {c : Catalog} (hc : ∀ e ∈ c.entries, E e)
    {ms : List Message} (hms : ∀ m ∈ ms, M m) : ∀ e ∈ (c.addAll ms).entries, E e := by
  induction ms generalizing c with
  | nil => exact hc
  | cons m ms ih =>
    obtain ⟨hfirst, hothers⟩ := List.forall_mem_cons.mp hms
    exact ih (forall_entries_add hstart hmerge hc hfirst) hothers

end Catalog

namespace Extraction

open Script (Node)

/-- A call, and its arguments, as lowering makes them. -/
structure Site.Made (s : Site) : Prop where
  call      : Script.Lower.Made s.call
  arguments : ∀ a ∈ s.call.arguments, Script.Lower.Made a

/-- The calls of a file are at its path, and made of what its script was lowered to. -/
theorem made_of_mem_calls {x : Extraction} {file : ReadFile} {s : Site} (hs : s ∈ x.calls file) :
    s.origin = file.path ∧ s.Made := by
  rw [calls] at hs
  split at hs
  · next root hroot =>
    obtain ⟨script, hlower⟩ := exists_script_of_parse hroot
    obtain ⟨n, hn, rfl⟩ := List.mem_map.mp hs
    obtain ⟨hmem, -⟩ := List.mem_filter.mp hn
    rw [Node.walk_eq_preorder] at hmem
    have hmade := Script.Lower.made_of_lower (Script.tidy_parse script) hlower
    refine ⟨rfl, hmade n hmem, ?_⟩
    intro a ha
    -- arguments are children of their call, hence nodes of the same tree
    refine hmade a (Node.mem_preorder_of_mem_children hmem ?_)
    cases n with
    | call line callee arguments comments => exact List.mem_cons_of_mem _ ha
    | _ => cases ha
  · cases hs

/-- The files among visits that can be read. -/
@[simp] theorem mem_filterMap_readable? {disk : Disk} {visits : List Visit} {file : ReadFile} :
    file ∈ visits.filterMap (readable? disk) ↔
      .found file.path ∈ visits ∧ readSource disk file.path = .ok file.text := by
  rw [List.mem_filterMap]
  -- a visit counts as a file if its source can be read
  constructor
  · rintro ⟨visit, hvisit, hread⟩
    cases visit with
    | found path =>
      cases hsource : readSource disk path with
      | error error =>
        rw [readable?, hsource] at hread
        cases hread
      | ok text =>
        rw [readable?, hsource] at hread
        cases hread
        exact ⟨hvisit, hsource⟩
    | skipped path => cases hread
    | unreadable path fault => cases hread
  · rintro ⟨hfound, hread⟩
    refine ⟨_, hfound, ?_⟩
    rw [readable?, hread]
    rfl

/-- The messages of a source that could be read and parsed are those of its calls. -/
theorem call_of_mem_messages {x : Extraction} {disk : Disk} {path : Text} {found : List Message}
    (h : (x.messages disk path).result = .ok found) :
    ∃ text, readSource disk path = .ok text ∧ ∀ m ∈ found, ∃ s ∈ x.calls { path, text }, m = s.message := by
  cases hread : readSource disk path with
  | error error =>
    rw [messages, hread] at h
    cases h
  | ok text =>
    refine ⟨text, rfl, ?_⟩
    rw [messages_of_parse hread] at h
    -- a source that cannot be parsed gives no messages
    cases hparse : x.parse { path, text } with
    | error error =>
      rw [hparse] at h
      cases h
    | ok root =>
      rw [hparse] at h
      cases h
      intro m hm
      obtain ⟨s, hs, rfl⟩ := List.mem_map.mp hm
      exact ⟨s, hs, rfl⟩

/-! ## The catalog of an extraction -/

section

variable {M : Message → Prop} {E : Entry → Prop}

/-- **Run.** What holds of the messages of every file that can be read, and is kept by merging, holds of
the catalog that is collected. -/
theorem forall_entries_collectVisits (hstart : ∀ m, M m → E (.ofMessage m))
    (hmerge : ∀ e m, E e → M m → E (e.merge m)) {x : Extraction} {disk : Disk} {visits : List Visit}
    (hfiles : ∀ file ∈ visits.filterMap (readable? disk), ∀ s ∈ x.calls file, M s.message)
    {catalog : Catalog} (hcatalog : ∀ e ∈ catalog.entries, E e) :
    ∀ e ∈ (x.collectVisits disk catalog visits).catalog.entries, E e := by
  induction visits generalizing catalog with
  | nil => exact hcatalog
  | cons visit visits ih =>
    -- only a file that was found, read and parsed adds messages; the other visits add none or end the run
    have hrest : ∀ file ∈ visits.filterMap (readable? disk), ∀ s ∈ x.calls file, M s.message := by
      intro file hfile
      rw [mem_filterMap_readable?] at hfile
      exact hfiles file (mem_filterMap_readable?.mpr ⟨List.mem_cons_of_mem _ hfile.1, hfile.2⟩)
    cases visit with
    | skipped path => exact ih hrest hcatalog
    | unreadable path fault =>
      rw [collectVisits]
      split
      · exact hcatalog
      · exact ih hrest hcatalog
    | found path =>
      rw [collectVisits]
      split
      · next found hfound =>
        refine ih hrest (Catalog.forall_entries_addAll hstart hmerge hcatalog ?_)
        obtain ⟨text, hread, hcalls⟩ := call_of_mem_messages hfound
        intro m hm
        obtain ⟨s, hs, rfl⟩ := hcalls m hm
        exact hfiles { path, text } (mem_filterMap_readable?.mpr ⟨List.mem_cons_self, hread⟩) s hs
      · split
        · exact hcatalog
        · exact ih hrest hcatalog
      · exact hcatalog

/-- **The catalog of an extraction.** It is filled from the files that can be read, whether the
extraction comes to its end or not. -/
theorem forall_entries_collect (hstart : ∀ m, M m → E (.ofMessage m))
    (hmerge : ∀ e m, E e → M m → E (e.merge m)) {x : Extraction} {disk : Disk} {depth : Nat} {path : Text}
    (hfiles : ∀ file ∈ x.files disk depth (Path.normalize path), ∀ s ∈ x.calls file, M s.message) :
    ∀ e ∈ (x.collect disk depth path .empty).catalog.entries, E e := by
  rw [collect]
  split
  · exact fun e he => by cases he
  · exact forall_entries_collectVisits hstart hmerge hfiles fun e he => by cases he

/-- Merging sorts comments, but changes none. -/
theorem forall_comments_collect {P : Text → Prop} {x : Extraction} {disk : Disk} {depth : Nat} {path : Text}
    (hfiles : ∀ file ∈ x.files disk depth (Path.normalize path), ∀ s ∈ x.calls file, ∀ c ∈ s.message.notes, P c) :
    ∀ e ∈ (x.collect disk depth path .empty).catalog.entries, ∀ c ∈ e.comments, P c := by
  refine forall_entries_collect (M := fun m => ∀ c ∈ m.notes, P c) (fun m hm => hm) ?_ hfiles
  intro e m he hm c hc
  rw [Entry.merge, Text.sortDescending_eq_mergeSort, List.mem_mergeSort, List.mem_append] at hc
  exact hc.elim (he c) (hm c)

/-- Merging keeps the payload of an entry. -/
theorem forall_payloads_collect {P : Value → Prop} {x : Extraction} {disk : Disk} {depth : Nat} {path : Text}
    (hfiles : ∀ file ∈ x.files disk depth (Path.normalize path), ∀ s ∈ x.calls file, P s.message.payload) :
    ∀ e ∈ (x.collect disk depth path .empty).catalog.entries, P e.payload :=
  forall_entries_collect (M := fun m => P m.payload) (fun _ hm => hm) (fun _ _ he _ => he) hfiles

/-- Writing the template leaves the catalog as it was collected. -/
theorem catalog_run (x : Extraction) (disk : Disk) (depth : Nat) (path : Text) :
    (x.run disk depth path).catalog = (x.collect disk depth path .empty).catalog := by
  rw [run]
  dsimp only
  split
  · rfl
  · rfl

end

end Extraction

end Phrasebook
