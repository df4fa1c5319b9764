import Phrasebook.Proofs.Traversal
import Phrasebook.Script.Pattern
import Phrasebook.Script.Rule

/-!
# Phrasebook — comments of concrete trees

Comments enter a tree in one place: where a cursor passes the space before a token. There a comment that
starts with two slashes is read up to the end of its line, so that it holds no line feed; and no comment has
a role. A tree in which every comment is as it was read is called *tidy*.

Rules only pass on the comments that a cursor has collected, and put other nodes around them. That a rule
keeps trees tidy is said for the step that it makes from a tidy cursor: what is done is tidy, and so is
whatever follows the goals that it asks for. The statement is closed under the ways in which rules are put
together, and the machine carries it through a whole run.

Main results:

* `Cursor.forall_comments_skipFrom`, `Cursor.tidy_skip` — the comments that a cursor collects;
* `Rule.Yields.bind`, `Rule.Yields.append`, `Rule.Yields.construct` — rules that are put together;
* `Machine.tidy_run` — a run of the machine with tidy rules finds tidy trees.
-/

namespace Phrasebook.Script

/-! ## Tidy trees -/

/-- A comment that starts with two slashes holds no line feed, and no comment plays a part in the construct
around it. -/
structure Label.Tidy (l : Label) : Prop where
  oneLine : l.kind.isComment = true → ['/', '/'] <+: l.spelling → '\n' ∉ l.spelling
  apart   : l.kind.isComment = true → l.role = none

namespace Tree

/-- Every comment of a tree is as it was read. -/
def Tidy (t : Tree) : Prop := ∀ s ∈ t.preorder, s.label.Tidy

/-- The same for a list of trees. -/
def AllTidy (ts : List Tree) : Prop := ∀ t ∈ ts, t.Tidy

@[simp] theorem tidy_node {l : Label} {cs : List Tree} : Tidy (.node l cs) ↔ l.Tidy ∧ AllTidy cs := by
  rw [Tidy, preorder_eq, preorderAll_eq_flatMap, List.forall_mem_cons]
  refine and_congr Iff.rfl ⟨fun h c hc s hs => h s (List.mem_flatMap.mpr ⟨c, hc, hs⟩), fun h s hs => ?_⟩
  obtain ⟨c, hc, hs⟩ := List.mem_flatMap.mp hs
  exact h c hc s hs

theorem Tidy.children {t : Tree} (h : t.Tidy) : AllTidy t.children := by
  cases t
  exact (tidy_node.mp h).2

@[simp] theorem allTidy_nil : AllTidy [] := List.forall_mem_nil _

theorem AllTidy.append {ts us : List Tree} (hts : AllTidy ts) (hus : AllTidy us) : AllTidy (ts ++ us) :=
  List.forall_mem_append.mpr ⟨hts, hus⟩

theorem AllTidy.cons {t : Tree} {ts : List Tree} (ht : t.Tidy) (hts : AllTidy ts) : AllTidy (t :: ts) :=
  List.forall_mem_cons.mpr ⟨ht, hts⟩

theorem Tidy.singleton {t : Tree} (h : t.Tidy) : AllTidy [t] := .cons h allTidy_nil

theorem AllTidy.of_subset {ts us : List Tree} (h : AllTidy us) (hsub : ∀ t ∈ ts, t ∈ us) : AllTidy ts :=
  fun t ht => h t (hsub t ht)

theorem Label.tidy_of_isComment {l : Label} (h : l.kind.isComment = false) : l.Tidy := by
  have hno : ¬ l.kind.isComment = true := by simp [h]
  exact ⟨fun hcomment => absurd hcomment hno, fun hcomment => absurd hcomment hno⟩

/-- A node that is put around tidy trees. It has no spelling of its own. -/
theorem AllTidy.of {cs : List Tree} (h : AllTidy cs) {kind : Kind} {line : Nat} :
    (Tree.of kind line cs).Tidy :=
  tidy_node.mpr ⟨⟨fun _ hstart => absurd hstart (by simp), fun _ => rfl⟩, h⟩

theorem AllTidy.node {cs : List Tree} (h : AllTidy cs) {l : Label} (hkind : l.kind.isComment = false) :
    Tidy (.node l cs) :=
  tidy_node.mpr ⟨Label.tidy_of_isComment hkind, h⟩

theorem Tidy.withRole {t : Tree} (h : t.Tidy) {role : Role} : (t.withRole role).Tidy := by
  obtain ⟨l, cs⟩ := t
  obtain ⟨hlabel, hchildren⟩ := tidy_node.mp h
  exact tidy_node.mpr ⟨⟨hlabel.oneLine, fun hcomment => if_pos hcomment⟩, hchildren⟩

theorem Tidy.withKind {t : Tree} (h : t.Tidy) {kind : Kind} (hkind : kind.isComment = false) :
    (t.withKind kind).Tidy := by
  obtain ⟨l, cs⟩ := t
  exact (tidy_node.mp h).2.node hkind

/-! ## Patterns -/

theorem tidy_of_map_node {l : Label} (hkind : l.kind.isComment = false) {patterns? : Option (List Tree)}
    (h : ∀ ps, patterns? = some ps → AllTidy ps) {p : Tree}
    (hp : patterns?.map (.node l) = some p) : p.Tidy := by
  obtain ⟨ps, hps, rfl⟩ := Option.map_eq_some_iff.mp hp
  exact (h ps hps).node hkind

theorem allTidy_of_bind_cons {t : Tree} (ht : t.Tidy) {patterns? : Option (List Tree)}
    (h : ∀ ps, patterns? = some ps → AllTidy ps) {all : List Tree}
    (hall : (patterns?.bind fun ps => some (t :: ps)) = some all) : AllTidy all := by
  obtain ⟨ps, hps, hall⟩ := Option.bind_eq_some_iff.mp hall
  cases hall
  exact .cons ht (h ps hps)

mutual

/-- Patterns keep the comments of the expressions they are made from. -/
theorem tidy_toPattern? : ∀ (t : Tree) (p : Tree), t.Tidy → toPattern? t = some p → p.Tidy
  | .node l cs, p, h, hp => by
    have hcs := (tidy_node.mp h).2
    rw [toPattern?] at hp
    split at hp
    · cases hp
      exact h
    · split at hp
      · exact tidy_of_map_node rfl (fun ps => allTidy_toItems? cs ps hcs) hp
      · exact tidy_of_map_node rfl (fun ps => allTidy_toProperties? cs ps hcs) hp
      · cases hp

/-- An expression that is turned into a pattern: its children are those of the expression, turned in the same
way, or it is left as it is. -/
theorem tidy_toItem? : ∀ (t : Tree) (p : Tree), t.Tidy → toItem? t = some p → p.Tidy
  | .node l cs, p, h, hp => by
    have hcs := (tidy_node.mp h).2
    rw [toItem?] at hp
    split at hp
    · cases hp
      exact h
    · split at hp
      · cases hp
        exact h
      · cases hp
        exact h
      · cases hp
        exact h
      · exact tidy_of_map_node rfl (fun ps => allTidy_toItems? cs ps hcs) hp
      · exact tidy_of_map_node rfl (fun ps => allTidy_toProperties? cs ps hcs) hp
      · split at hp
        · cases hp
        · cases hp
          exact hcs.node rfl
      · exact tidy_of_map_node rfl (fun ps => allTidy_toRest? cs ps hcs) hp
      · cases hp

theorem allTidy_toItems? : ∀ (ts ps : List Tree), AllTidy ts → toItems? ts = some ps → AllTidy ps
  | [], ps, _, hp => by
    cases hp
    exact allTidy_nil
  | t :: ts, ps, h, hp => by
    obtain ⟨ht, hts⟩ := List.forall_mem_cons.mp h
    rw [toItems?] at hp
    obtain ⟨item, hitem, hp⟩ := Option.bind_eq_some_iff.mp hp
    exact allTidy_of_bind_cons (tidy_toItem? t item ht hitem) (fun ps => allTidy_toItems? ts ps hts) hp

theorem allTidy_toRest? : ∀ (ts ps : List Tree), AllTidy ts → toRest? ts = some ps → AllTidy ps
  | [], ps, _, hp => by
    cases hp
    exact allTidy_nil
  | .node l cs :: ts, ps, h, hp => by
    obtain ⟨ht, hts⟩ := List.forall_mem_cons.mp h
    have hothers := fun ps => allTidy_toRest? ts ps hts
    rw [toRest?] at hp
    split at hp
    · exact allTidy_of_bind_cons ht hothers hp
    · exact allTidy_of_bind_cons ht hothers hp
    · exact allTidy_of_bind_cons ht hothers hp
    · obtain ⟨part, hpart, hp⟩ := Option.bind_eq_some_iff.mp hp
      exact allTidy_of_bind_cons (tidy_toPattern? (.node l cs) part ht hpart) hothers hp

/-- The properties of an object pattern, each turned on its own: names stand as they are, values are turned into
patterns below their keys, and a default or a rest is turned like an item. -/
theorem allTidy_toProperties? :
    ∀ (ts ps : List Tree), AllTidy ts → toProperties? ts = some ps → AllTidy ps
  | [], ps, _, hp => by
    cases hp
    exact allTidy_nil
  | .node l cs :: ts, ps, h, hp => by
    obtain ⟨ht, hts⟩ := List.forall_mem_cons.mp h
    have hcs := (tidy_node.mp ht).2
    have hothers := fun ps => allTidy_toProperties? ts ps hts
    unfold toProperties? at hp
    dsimp only at hp
    split at hp
    · exact allTidy_of_bind_cons ht hothers hp
    · exact allTidy_of_bind_cons ht hothers hp
    · exact allTidy_of_bind_cons ht hothers hp
    · exact allTidy_of_bind_cons (hcs.node rfl) hothers hp
    · exact allTidy_of_bind_cons (hcs.node rfl) hothers hp
    · obtain ⟨property, hproperty, hp⟩ := Option.bind_eq_some_iff.mp hp
      have htidy := tidy_of_map_node rfl (fun ps => allTidy_toRest? cs ps hcs) hproperty
      exact allTidy_of_bind_cons htidy hothers hp
    · split at hp
      · next key value =>
        obtain ⟨hkey, hvalue⟩ := List.forall_mem_cons.mp hcs
        obtain ⟨property, hproperty, hp⟩ := Option.bind_eq_some_iff.mp hp
        obtain ⟨patterns, hpatterns, rfl⟩ := Option.map_eq_some_iff.mp hproperty
        have hpair := AllTidy.cons hkey (allTidy_toItems? value patterns hvalue hpatterns)
        exact allTidy_of_bind_cons (hpair.node rfl) hothers hp
      · cases hp
    · cases hp

end

theorem tidy_toParameters? {line : Nat} {opening items closing : List Tree} {p : Tree}
    (hopening : AllTidy opening) (hitems : AllTidy items) (hclosing : AllTidy closing)
    (h : toParameters? line opening items closing = some p) : p.Tidy := by
  rw [toParameters?] at h
  split at h
  · obtain ⟨patterns, hpatterns, rfl⟩ := Option.map_eq_some_iff.mp h
    have hinside := allTidy_toItems? items patterns hitems hpatterns
    exact ((hopening.append hinside).append hclosing).node rfl
  · cases h

/-- A parenthesized expression: its items, those of a sequence in one node of their own. -/
theorem tidy_toParenthesized? {line : Nat} {opening items closing : List Tree} {p : Tree}
    (hopening : AllTidy opening) (hitems : AllTidy items) (hclosing : AllTidy closing)
    (h : toParenthesized? line opening items closing = some p) : p.Tidy := by
  unfold toParenthesized? at h
  dsimp only at h
  split at h
  · cases h
  · cases h
    refine AllTidy.node ((hopening.append ?_).append hclosing) rfl
    split
    · -- the items of a sequence, with the comments around them
      next first second others _ =>
      have hbefore : AllTidy (items.takeWhile (·.kind.isExtra)) :=
        hitems.of_subset fun t ht => List.takeWhile_subset _ ht
      have hafter : AllTidy (items.reverse.takeWhile (·.kind.isExtra)).reverse :=
        hitems.of_subset fun t ht =>
          List.mem_reverse.mp (List.takeWhile_subset _ (List.mem_reverse.mp ht))
      refine (hbefore.append (Tidy.singleton ?_)).append hafter
      exact (hitems.of_subset fun t ht => List.mem_of_mem_drop (List.mem_of_mem_take ht)).node rfl
    · exact hitems

theorem tidy_toAssigned? {t p : Tree} (ht : t.Tidy) (h : t.toAssigned? = some p) : p.Tidy := by
  rw [toAssigned?] at h
  split at h
  · cases h
    exact ht
  · exact tidy_toPattern? t p ht h

end Tree

open Script.Tree (AllTidy)

/-! ## Cursors -/

namespace Cursor

/-- The comments that a cursor has collected are tidy. -/
def Tidy (c : Cursor) : Prop := AllTidy c.pending

/-- What is known of the comment that is being read: one to the end of its line holds no line feed, and
one in a block does not start with two slashes. -/
def Space.Tidy : Space → Prop
  | .blank => True
  | .note _ read _ => '\n' ∉ read
  | .opening _ _ => True
  | .block read _ _ _ => ∃ inside, read = inside ++ ['*', '/']

/-- A line feed is white space between tokens. -/
theorem not_mem_singleton_of_not_isGap {c : Char} (h : ¬ isGap c = true) : '\n' ∉ [c] := by
  intro hmem
  rw [List.mem_singleton] at hmem
  exact h (hmem ▸ by decide)

/-- **The comments between two tokens.** What holds of every comment as it is read holds of all that are
collected. -/
theorem forall_comments_skipFrom {P : Tree → Prop}
    (hnote : ∀ page read line, '\n' ∉ read → P (commentNode page read line))
    (hblock : ∀ inside line, P (commentNode false (inside ++ ['*', '/']) line))
    {page : Bool} {space : Space} {line : Nat} {found : List Tree} {text : List Char}
    {rest : List Char} {behind : Nat} {comments : List Tree} (hspace : space.Tidy)
    (hfound : ∀ t ∈ found, P t) (h : skipFrom page space line found text = .ok (rest, behind, comments)) :
    ∀ t ∈ comments, P t := by
  fun_induction skipFrom page space line found text with
  | case1 line found =>
    cases h
    exact hfound
  | case2 isPage read start line found =>
    cases h
    exact List.forall_mem_cons.mpr ⟨hnote _ _ _ hspace, hfound⟩
  | case3 => cases h
  | case4 => cases h
  | case5 line found c rest hgap ih => exact ih trivial hfound h
  | case6 line found c rest hgap hslash ih => exact ih (not_mem_singleton_of_not_isGap hgap) hfound h
  | case7 line found c rest hgap hslash hstar ih => exact ih trivial hfound h
  | case8 line found c rest hgap hslash hstar hpage ih =>
    exact ih (not_mem_singleton_of_not_isGap hgap) hfound h
  | case9 line found c rest hgap hslash hstar hpage =>
    cases h
    exact hfound
  | case10 isPage read start line found c rest hend ih =>
    exact ih trivial (List.forall_mem_cons.mpr ⟨hnote _ _ _ hspace, hfound⟩) h
  | case11 isPage read start line found c rest hend hnul =>
    cases h
    exact List.forall_mem_cons.mpr ⟨hnote _ _ _ hspace, hfound⟩
  | case12 isPage read start line found c rest hend hnul ih =>
    refine ih ?_ hfound h
    -- a line feed would have ended the comment
    intro hmem
    rcases List.mem_cons.mp hmem with rfl | hmem
    · exact hend (by simp [endsLine])
    · exact hspace hmem
  | case13 start whole line found c rest ih => exact ih ⟨[], rfl⟩ hfound h
  | case14 => cases h
  | case15 read start whole star line found c rest hnul hclose ih =>
    obtain ⟨inside, rfl⟩ := hspace
    exact ih trivial (List.forall_mem_cons.mpr ⟨hblock (c :: inside) _, hfound⟩) h
  | case16 read start whole star line found c rest hnul hclose ih =>
    obtain ⟨inside, rfl⟩ := hspace
    exact ih ⟨c :: inside, rfl⟩ hfound h

theorem tidy_commentNode_note (page : Bool) (read : List Char) (line : Nat) (h : '\n' ∉ read) :
    (commentNode page read line).Tidy :=
  Tree.tidy_node.mpr ⟨⟨fun _ _ hmem => h (List.mem_reverse.mp hmem), fun _ => rfl⟩, Tree.allTidy_nil⟩

theorem tidy_commentNode_block (inside : List Char) (line : Nat) :
    (commentNode false (inside ++ ['*', '/']) line).Tidy := by
  refine Tree.tidy_node.mpr ⟨⟨fun _ hstart => ?_, fun _ => rfl⟩, Tree.allTidy_nil⟩
  simp at hstart

theorem tidy_start (text : List Char) : (start text).Tidy := Tree.allTidy_nil

theorem tidy_behind (c : Cursor) (taken rest : List Char) : (c.behind taken rest).Tidy := Tree.allTidy_nil

/-- A cursor that passes the space before a token stays tidy. -/
theorem tidy_skip {c d : Cursor} {page : Bool} (hc : c.Tidy) (h : c.skip page = .ok d) : d.Tidy := by
  rw [skip] at h
  split at h
  · cases h
    exact hc
  · dsimp only at h
    split at h
    · next hskip =>
      cases h
      exact forall_comments_skipFrom tidy_commentNode_note tidy_commentNode_block
        (show Space.Tidy .blank from trivial) hc hskip
    · cases h

end Cursor

/-! ## Rules -/

/-- The tree that a goal goes on from. -/
def Goal.left? : Goal → Option Tree
  | .operators _ _ left => some left
  | .suffixes _ _ left => some left
  | .dotted left => some left
  | _ => none

/-- The tree that a goal goes on from is tidy. -/
def Goal.Tidy (goal : Goal) : Prop := ∀ left ∈ goal.left?, left.Tidy

theorem Goal.tidy_of_left? {goal : Goal} (h : goal.left? = none) : goal.Tidy := by
  intro left hleft
  rw [h] at hleft
  cases hleft

theorem Goal.tidy_of_left?_eq_some {goal : Goal} {left : Tree} (h : goal.left? = some left)
    (hleft : left.Tidy) : goal.Tidy := by
  intro other hother
  rw [h, Option.mem_some_iff] at hother
  exact hother ▸ hleft

/-- A step leads to a value with the given property and to a tidy cursor, if the goals that it asks for
find tidy trees. -/
def Step.Yields {α : Type} (P : α → Prop) : Step α → Prop
  | .done a c => P a ∧ c.Tidy
  | .fail _ => True
  | .call goal here next =>
    goal.Tidy ∧ here.Tidy ∧ ∀ ts c, AllTidy ts → c.Tidy → (next ts c).Yields P
  | .choose first second here next =>
    (first.Tidy ∧ second.Tidy) ∧ here.Tidy ∧ ∀ ts c, AllTidy ts → c.Tidy → (next ts c).Yields P

/-- Two steps in turn: the second starts from what the first one yields. -/
theorem Step.Yields.bind {α β : Type} {P : α → Prop} {Q : β → Prop} {s : Step α}
    {f : α → Cursor → Step β} (hs : s.Yields P) (hf : ∀ a c, P a → c.Tidy → (f a c).Yields Q) :
    (s.bind f).Yields Q := by
  -- what follows the goals of a step is bound with them, and has the property by induction
  induction s with
  | done a c => exact hf a c hs.1 hs.2
  | fail c => trivial
  | call goal here next ih =>
    obtain ⟨hgoal, hhere, hnext⟩ := hs
    exact ⟨hgoal, hhere, fun ts c hts hc => ih ts c (hnext ts c hts hc)⟩
  | choose first second here next ih =>
    obtain ⟨hgoals, hhere, hnext⟩ := hs
    exact ⟨hgoals, hhere, fun ts c hts hc => ih ts c (hnext ts c hts hc)⟩

namespace Rule

/-- A rule yields values with the given property at every tidy cursor. -/
def Yields {α : Type} (P : α → Prop) (r : Rule α) : Prop := ∀ c : Cursor, c.Tidy → (r c).Yields P

/-- A rule yields some value at every tidy cursor. -/
abbrev Reads {α : Type} (r : Rule α) : Prop := r.Yields fun _ => True

/-- A rule finds tidy trees. -/
abbrev Tidy (r : Rule (List Tree)) : Prop := r.Yields AllTidy

section

variable {α β : Type} {P : α → Prop} {Q : β → Prop}

theorem yields_pure {a : α} (h : P a) : (pure a : Rule α).Yields P := fun _ hc => ⟨h, hc⟩

theorem Yields.bind {r : Rule α} {f : α → Rule β} (hr : r.Yields P) (hf : ∀ a, P a → (f a).Yields Q) :
    (r >>= f).Yields Q :=
  fun c hc => (hr c hc).bind fun a d ha hd => hf a ha d hd

theorem Yields.ite {c : Prop} [Decidable c] {r s : Rule α} (hr : r.Yields P) (hs : s.Yields P) :
    (if c then r else s).Yields P := by
  split
  · exact hr
  · exact hs

theorem Reads.bind {r : Rule α} {f : α → Rule β} (hr : r.Reads) (hf : ∀ a, (f a).Yields Q) :
    (r >>= f).Yields Q :=
  Yields.bind hr fun a _ => hf a

theorem yields_refuse : (refuse : Rule α).Yields P := by
  intro c _
  rw [refuse]
  split
  · trivial
  · trivial

theorem yields_refuseFrom {line : Nat} : (refuseFrom line : Rule α).Yields P := fun _ _ => trivial

end

/-! ## Looking ahead -/

theorem reads_cursor : cursor.Reads := fun _ hc => ⟨trivial, hc⟩

theorem reads_look : look.Reads := by
  intro c hc
  rw [look]
  split
  · next d hd => exact ⟨trivial, Cursor.tidy_skip hc hd⟩
  · trivial

theorem reads_lookBehind : lookBehind.Reads := by
  intro c hc
  rw [lookBehind]
  split
  · next d hd => exact ⟨trivial, Cursor.tidy_skip hc hd⟩
  · trivial

theorem reads_omits {operand : Bool} : (omits operand).Reads := fun _ hc => ⟨trivial, hc⟩

theorem reads_ends {site : Site} : (ends site).Reads := fun _ hc => ⟨trivial, hc⟩

theorem reads_closeBlock : closeBlock.Reads := fun _ hc => ⟨trivial, hc⟩

/-! ## Tokens -/

theorem tidy_extras : extras.Tidy := by
  intro c hc
  rw [extras]
  split
  · next d hd =>
    have hpending := Cursor.tidy_skip hc hd
    exact ⟨hpending.of_subset fun t ht => List.mem_reverse.mp ht, Tree.allTidy_nil⟩
  · trivial

/-- A token brings the comments before it with it. -/
theorem tidy_leaf {kind : Kind} {taken rest : List Char} (h : kind.isComment = false) :
    (leaf kind taken rest).Tidy := by
  intro c hc
  have hpending : AllTidy c.pending.reverse := hc.of_subset fun t ht => List.mem_reverse.mp ht
  exact ⟨hpending.append (Tree.allTidy_nil.node h).singleton, Cursor.tidy_behind c taken rest⟩

theorem tidy_leafOf {kind : Kind} {length : Nat} (h : kind.isComment = false) :
    (leafOf kind length).Tidy :=
  reads_cursor.bind fun _ => tidy_leaf h

theorem tidy_mark {spelling : List Char} : (mark spelling).Tidy :=
  reads_look.bind fun _ => .ite (tidy_leaf rfl) yields_refuse

theorem tidy_keyword {word : String} : (keyword word).Tidy :=
  reads_look.bind fun _ => .ite (tidy_leaf rfl) yields_refuse

theorem tidy_variableName {kind : Kind} (h : kind.isComment = false) : (variableName kind).Tidy :=
  reads_look.bind fun _ => .ite yields_refuse (tidy_leaf h)

theorem tidy_scanned {kind : Kind} {scan : List Char → Lexeme.Scan} (h : kind.isComment = false) :
    (scanned kind scan).Tidy := by
  refine reads_cursor.bind fun start => ?_
  split
  · exact tidy_leaf h
  · exact .ite yields_refuse fun _ _ => trivial

theorem tidy_semicolon {operand : Bool} : (semicolon operand).Tidy := by
  refine reads_omits.bind fun omitted => .ite (fun c hc => ⟨Tree.allTidy_nil, hc⟩) ?_
  refine reads_lookBehind.bind fun rest => ?_
  split
  · exact tidy_leaf rfl
  · exact yields_refuse

/-! ## Rules that are put together -/

theorem tidy_callOf {goal : Goal} (h : goal.Tidy) : (call goal).Tidy :=
  fun _ hc => ⟨h, hc, fun _ _ hts hd => ⟨hts, hd⟩⟩

theorem tidy_call {goal : Goal} (h : goal.left? = none) : (call goal).Tidy :=
  tidy_callOf (Goal.tidy_of_left? h)

theorem tidy_callFrom {goal : Goal} {left : Tree} (h : goal.left? = some left) (hleft : left.Tidy) :
    (call goal).Tidy :=
  tidy_callOf (Goal.tidy_of_left?_eq_some h hleft)

theorem tidy_choose {first second : Goal} (hfirst : first.left? = none) (hsecond : second.left? = none) :
    (choose first second).Tidy :=
  fun _ hc =>
    ⟨⟨Goal.tidy_of_left? hfirst, Goal.tidy_of_left? hsecond⟩, hc, fun _ _ hts hd => ⟨hts, hd⟩⟩

theorem tidy_part {goal : Goal} (h : goal.left? = none) : (part goal).Tidy :=
  tidy_extras.bind fun _ hbefore => (tidy_call h).bind fun _ hfound => yields_pure (hbefore.append hfound)

theorem Yields.append {r s : Rule (List Tree)} (hr : r.Tidy) (hs : s.Tidy) : (r ++ s).Tidy :=
  Yields.bind hr fun _ hbefore => Yields.bind hs fun _ hafter => yields_pure (hbefore.append hafter)

theorem Yields.whenNext {r : Rule (List Tree)} (hr : r.Tidy) {test : List Char → Bool} :
    (Rule.whenNext test r).Tidy :=
  reads_look.bind fun _ => .ite hr (yields_pure Tree.allTidy_nil)

theorem Yields.construct {r : Rule (List Tree)} (hr : r.Tidy) {kind : Kind} :
    (Rule.construct kind r).Tidy :=
  tidy_extras.bind fun _ hbefore => reads_cursor.bind fun _ => Yields.bind hr fun _ hchildren =>
    yields_pure (hbefore.append hchildren.of.singleton)

theorem yields_one {trees : List Tree} (h : AllTidy trees) : (one trees).Yields Tree.Tidy := by
  unfold one
  split
  · next t => exact yields_pure (h t List.mem_cons_self)
  · exact yields_refuse

theorem allTidy_splitLast {trees before : List Tree} {t : Tree} (h : AllTidy trees)
    (hsplit : splitLast trees = some (before, t)) : AllTidy before ∧ t.Tidy := by
  rw [splitLast] at hsplit
  split at hsplit
  · cases hsplit
  · next last others hreverse =>
    rw [Option.some.injEq, Prod.mk.injEq] at hsplit
    obtain ⟨rfl, rfl⟩ := hsplit
    have hall : AllTidy (last :: others) := by
      rw [← hreverse]
      exact h.of_subset fun u hu => List.mem_reverse.mp hu
    obtain ⟨hlast, hothers⟩ := List.forall_mem_cons.mp hall
    exact ⟨Tree.AllTidy.of_subset hothers fun u hu => List.mem_reverse.mp hu, hlast⟩

theorem allTidy_inRole {role : Role} {trees : List Tree} (h : AllTidy trees) :
    AllTidy (inRole role trees) := by
  rw [inRole]
  split
  · next before t hsplit =>
    obtain ⟨hbefore, ht⟩ := allTidy_splitLast h hsplit
    exact hbefore.append ht.withRole.singleton
  · exact h

end Rule

/-! ## The machine -/

namespace Machine

/-- What goes on behind a goal yields tidy trees. -/
def Frame.Tidy : Frame → Prop
  | .resume next => ∀ ts c, AllTidy ts → c.Tidy → (next ts c).Yields AllTidy
  | .otherwise goal here => goal.Tidy ∧ here.Tidy

theorem tidy_of_fallback? {stack rest : List Frame} {goal : Goal} {here : Cursor}
    (hstack : ∀ frame ∈ stack, frame.Tidy) (h : fallback? stack = some (goal, here, rest)) :
    goal.Tidy ∧ here.Tidy ∧ ∀ frame ∈ rest, frame.Tidy := by
  induction stack with
  | nil => cases h
  | cons frame stack ih =>
    obtain ⟨hframe, hothers⟩ := List.forall_mem_cons.mp hstack
    cases frame with
    | resume next => exact ih hothers h
    | otherwise other there =>
      cases h
      exact ⟨hframe.1, hframe.2, hothers⟩

/-- The machine has tidy trees before it. -/
structure State.Tidy (s : State) : Prop where
  stack : ∀ frame ∈ s.stack, frame.Tidy
  step  : s.step.Yields AllTidy

/-- What the machine has come to is tidy. -/
def Status.Tidy : Status → Prop
  | .running s => s.Tidy
  | .found trees => AllTidy trees
  | .refused _ => True

theorem Status.Tidy.andThen {status : Status} (h : status.Tidy) {next : State → Status}
    (hnext : ∀ s : State, s.Tidy → (next s).Tidy) : (status.andThen next).Tidy := by
  cases status with
  | running s => exact hnext s h
  | found trees => exact h
  | refused line => trivial

section

variable {rules : Goal → Rule (List Tree)} (hrules : ∀ goal, goal.Tidy → (rules goal).Tidy)
include hrules

/-- **One move** keeps all trees tidy: those found so far, those that waiting goals were given, and those that
the rest of a step will be given. -/
theorem tidy_move {s : State} (h : s.Tidy) : (move rules s).Tidy := by
  obtain ⟨refusal, stack, step⟩ := s
  obtain ⟨hstack, hstep⟩ := h
  cases step with
  | done trees here =>
    obtain ⟨htrees, hhere⟩ := hstep
    cases stack with
    | nil => exact htrees
    | cons frame stack =>
      obtain ⟨hframe, hothers⟩ := List.forall_mem_cons.mp hstack
      cases frame with
      | resume next => exact ⟨hothers, hframe trees here htrees hhere⟩
      | otherwise goal there => exact ⟨hothers, htrees, hhere⟩
  | call goal here next =>
    obtain ⟨hgoal, hhere, hnext⟩ := hstep
    -- the rest of the step waits on the stack
    exact ⟨List.forall_mem_cons.mpr ⟨hnext, hstack⟩, hrules goal hgoal here hhere⟩
  | choose first second here next =>
    obtain ⟨⟨hfirst, hsecond⟩, hhere, hnext⟩ := hstep
    -- so does the second goal, together with the place to go back to
    have hwaiting : ∀ frame ∈ Frame.otherwise second here :: .resume next :: stack, frame.Tidy :=
      List.forall_mem_cons.mpr ⟨⟨hsecond, hhere⟩, List.forall_mem_cons.mpr ⟨hnext, hstack⟩⟩
    exact ⟨hwaiting, hrules first hfirst here hhere⟩
  | fail here =>
    simp only [move]
    split
    -- the last choice is taken up again where it was left
    · next goal there rest hfallback =>
      obtain ⟨hgoal, hthere, hrest⟩ := tidy_of_fallback? hstack hfallback
      exact ⟨hrest, hrules goal hgoal there hthere⟩
    · trivial

theorem tidy_moves {power : Nat} : ∀ {s : State}, s.Tidy → (moves rules power s).Tidy := by
  induction power with
  | zero => exact tidy_move hrules
  | succ power ih => exact fun h => (ih h).andThen fun _ => ih

theorem tidy_runFrom {rounds power : Nat} {s : State} (h : s.Tidy) :
    (runFrom rules rounds power s).Tidy := by
  induction rounds generalizing power s with
  | zero => exact h
  | succ rounds ih => exact (tidy_moves hrules h).andThen fun _ => ih

/-- **Run.** With rules that find tidy trees, whatever the machine finds is tidy. -/
theorem tidy_run {rounds : Nat} {step : Step (List Tree)} (hstep : step.Yields AllTidy) :
    (run rules rounds step).Tidy :=
  tidy_runFrom hrules ⟨List.forall_mem_nil _, hstep⟩

end

end Machine

end Phrasebook.Script
