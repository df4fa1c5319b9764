import Mathlib.Tactic.Ring
import Phrasebook.Proofs.Lexemes

/-!
# Phrasebook — the machine comes to an end

A goal asks for other goals, and these for more; the machine comes to an end because it cannot go on like
this without reading. Every goal has a *rank*. A rule may ask for a goal of any rank once it has read a
character, and before that only for goals of a rank below its own. So the *weight* of a goal at a cursor,
which counts an unread character for more than any rank, is larger than the weight of the goals that its
rule asks for.

A choice may read a text twice, and choices may be nested, so that the number of moves is not bounded by a
polynomial. But a rule asks for no more than a fixed number of goals, which bounds the moves by a power whose
exponent is the weight. The rounds of the machine double, and as many of them as the exponent suffice.

That a rule keeps to all this is said for the step that it makes from a cursor, and is closed under the ways
in which rules are put together.

Main results:

* `Rule.TakesFrom.bind`, `Rule.takesFrom_look_bind`, `Rule.TakesFrom.construct` — rules that are put together;
* `Machine.ends_of_descends` — how a step on top of a stack ends, and within how many moves;
* `Machine.ended_run`, `Machine.run_eq_of_ended` — a run of enough rounds is no longer running, and more rounds
  make no difference.
-/

namespace Phrasebook.Script

/-! ## Weights -/

namespace Goal

/-- A goal asks for no goal of the same or of a larger rank before a character is read. -/
def rank : Goal → Nat
  | .program | .statements _ => 4
  | .statement => 3
  | .expressionStatement | .declarators | .arrowBody _ | .elements _ true => 2
  | .declaration | .binding | .members | .properties true | .elementChildren => 1
  | .expressions _ | .expression _ | .binary _ _ | .operand _ | .target _ | .constructor => 1
  | _ => 0

/-- The ranks are below this number. -/
def ranks : Nat := 5

/-- Whether a character is read wherever the goal is found. -/
def advances : Goal → Bool
  | .statement | .expressionStatement | .block | .declaration | .element => true
  | .expressions _ | .expression _ | .binary _ _ | .operand _ | .target _ | .constructor => true
  | _ => false

end Goal

/-- A cursor has not gone back; if it moved, it has read a character. -/
def Cursor.Behind (moved : Bool) (c d : Cursor) : Prop := d.rest.length + moved.toNat ≤ c.rest.length

namespace Cursor.Behind

theorem refl (c : Cursor) : Behind false c c := Nat.le_refl _

theorem trans {moved moved' : Bool} {c d e : Cursor} (h : Behind moved c d) (h' : Behind moved' d e) :
    Behind (moved || moved') c e := by
  unfold Behind at *
  cases moved <;> cases moved' <;> simp at * <;> omega

theorem mono {moved moved' : Bool} {c d : Cursor} (h : Behind moved c d) (hmoved : moved' → moved) :
    Behind moved' c d := by
  unfold Behind at *
  cases moved <;> cases moved' <;> simp at * <;> omega

end Cursor.Behind

/-- What is left of the weight of a goal with the given rank at a cursor. -/
def Cursor.weight (c : Cursor) (rank : Nat) : Nat := Goal.ranks * c.rest.length + rank

/-! ## Steps -/

/-- A step asks for at most a number of goals, each of a weight below the limit, and then stops at a cursor
with the given property. -/
def Step.Descends {α : Type} (limit : Nat) (Q : Cursor → Prop) : Step α → Nat → Prop
  | .done _ d, _ => Q d
  | .fail _, _ => True
  | .call _ _ _, 0 => False
  | .call goal here next, calls + 1 =>
    here.weight goal.rank < limit ∧
      ∀ ts d, here.Behind goal.advances d → (next ts d).Descends limit Q calls
  | .choose _ _ _ _, 0 => False
  | .choose first second here next, calls + 1 =>
    (here.weight first.rank < limit ∧ here.weight second.rank < limit) ∧
      ∀ ts d, here.Behind (first.advances && second.advances) d → (next ts d).Descends limit Q calls

namespace Step.Descends

variable {α β : Type} {limit limit' calls calls' : Nat} {P Q : Cursor → Prop}

/-- A step descends below a larger limit too, by more goals and to a weaker property. -/
theorem mono {s : Step α} (h : s.Descends limit P calls) (hlimit : limit ≤ limit') (hcalls : calls ≤ calls')
    (hQ : ∀ d, P d → Q d) : s.Descends limit' Q calls' := by
  induction s generalizing calls calls' with
  | done a d => exact hQ d h
  | fail d => trivial
  | call goal here next ih =>
    cases calls with
    | zero => exact h.elim
    | succ calls =>
      obtain ⟨calls', rfl⟩ : ∃ more, calls' = more + 1 := ⟨calls' - 1, by omega⟩
      obtain ⟨hweight, hnext⟩ := h
      exact ⟨Nat.lt_of_lt_of_le hweight hlimit, fun ts d hd => ih ts d (hnext ts d hd) (by omega)⟩
  | choose first second here next ih =>
    cases calls with
    | zero => exact h.elim
    | succ calls =>
      obtain ⟨calls', rfl⟩ : ∃ more, calls' = more + 1 := ⟨calls' - 1, by omega⟩
      obtain ⟨⟨hfirst, hsecond⟩, hnext⟩ := h
      exact ⟨⟨Nat.lt_of_lt_of_le hfirst hlimit, Nat.lt_of_lt_of_le hsecond hlimit⟩,
        fun ts d hd => ih ts d (hnext ts d hd) (by omega)⟩

/-- Two steps in turn: their goals add up, and the second starts where the first one stops. -/
theorem bind {s : Step α} {f : α → Cursor → Step β} (hs : s.Descends limit P calls)
    (hf : ∀ a d, P d → (f a d).Descends limit Q calls') : (s.bind f).Descends limit Q (calls + calls') := by
  -- what follows the goals of a step is bound with them
  induction s generalizing calls with
  | done a d => exact (hf a d hs).mono (Nat.le_refl _) (Nat.le_add_left _ _) fun _ hd => hd
  | fail d => trivial
  | call goal here next ih =>
    cases calls with
    | zero => exact hs.elim
    | succ calls =>
      rw [Nat.succ_add]
      exact ⟨hs.1, fun ts d hd => ih ts d (hs.2 ts d hd)⟩
  | choose first second here next ih =>
    cases calls with
    | zero => exact hs.elim
    | succ calls =>
      rw [Nat.succ_add]
      exact ⟨hs.1, fun ts d hd => ih ts d (hs.2 ts d hd)⟩

end Step.Descends

/-! ## Rules -/

/-- The ranks that may be asked for: all of them once a character is read. -/
def Goal.rankBehind (rank : Nat) : Bool → Nat
  | true => ranks
  | false => rank

/-- What has been read is taken off the weight, whatever rank may be asked for behind it. -/
theorem Cursor.Behind.weight_le {moved : Bool} {c d : Cursor} (h : c.Behind moved d) (rank : Nat) :
    d.weight (Goal.rankBehind rank moved) ≤ c.weight rank := by
  unfold Behind at h
  have hranks : Goal.ranks = 5 := rfl
  cases moved with
  | true =>
    simp only [weight, Goal.rankBehind, hranks, Bool.toNat_true] at *
    omega
  | false =>
    simp only [weight, Goal.rankBehind, hranks, Bool.toNat_false] at *
    omega

/-- A cursor that stands at a text, behind the space before it. -/
def Cursor.Facing (text : List Char) (c : Cursor) : Prop := c.settled = true ∧ c.rest = text

/-- Blanks and comments are skipped forwards only. -/
theorem Cursor.length_le_of_skipFrom {page : Bool} {space : Space} {line : Nat} {found : List Tree}
    {text rest : List Char} {behind : Nat} {comments : List Tree}
    (h : skipFrom page space line found text = .ok (rest, behind, comments)) :
    rest.length ≤ text.length := by
  fun_induction skipFrom page space line found text with
  | case1 | case2 | case9 | case11 =>
    cases h
    exact Nat.le_refl _
  | case3 | case4 | case14 => cases h
  | case5 _ _ _ _ _ ih | case6 _ _ _ _ _ _ ih | case7 _ _ _ _ _ _ _ ih | case8 _ _ _ _ _ _ _ _ ih
  | case10 _ _ _ _ _ _ _ _ ih | case12 _ _ _ _ _ _ _ _ _ ih | case13 _ _ _ _ _ _ ih
  | case15 _ _ _ _ _ _ _ _ _ _ ih | case16 _ _ _ _ _ _ _ _ _ _ ih =>
    exact Nat.le_succ_of_le (ih h)

/-- Behind the blanks and comments a cursor faces the next token, and is not before where it was. -/
theorem Cursor.facing_skip {c d : Cursor} {page : Bool} (h : c.skip page = .ok d) :
    d.Facing d.rest ∧ c.Behind false d := by
  rw [skip] at h
  split at h
  · next hsettled =>
    cases h
    exact ⟨⟨hsettled, rfl⟩, .refl c⟩
  · dsimp only at h
    split at h
    · next hskip =>
      cases h
      exact ⟨⟨rfl, rfl⟩, length_le_of_skipFrom hskip⟩
    · cases h

namespace Rule

/-- From every cursor with the property `P`, a rule asks for at most a number of goals, before a character is
read only for goals below the rank, and does not go back. If `moved`, it has read a character. -/
def TakesFrom {α : Type} (P : Cursor → Prop) (rank : Nat) (moved : Bool) (calls : Nat) (r : Rule α) : Prop :=
  ∀ c, P c → (r c).Descends (c.weight rank) (c.Behind moved) calls

/-- The same from every cursor. -/
abbrev Takes {α : Type} (rank : Nat) (moved : Bool) (calls : Nat) (r : Rule α) : Prop :=
  r.TakesFrom (fun _ => True) rank moved calls

/-- A rule that only looks at its cursor. -/
def Peeks {α : Type} (r : Rule α) : Prop := ∀ c, ∃ a, r c = .done a c

section

variable {α β : Type} {P : Cursor → Prop} {rank calls calls' : Nat} {moved moved' : Bool}

theorem Takes.takesFrom {r : Rule α} (h : r.Takes rank moved calls) : r.TakesFrom P rank moved calls :=
  fun c _ => h c trivial

theorem TakesFrom.mono {r : Rule α} (h : r.TakesFrom P rank moved calls) (hmoved : moved' → moved)
    (hcalls : calls ≤ calls') : r.TakesFrom P rank moved' calls' :=
  fun c hc => (h c hc).mono (Nat.le_refl _) hcalls fun _ hd => hd.mono hmoved

/-- A rule may be said to ask for more goals, or to read less. Where the numbers are known, `rfl` shows that
they fit. -/
theorem TakesFrom.of {r : Rule α} (h : r.TakesFrom P rank moved calls)
    (hfits : ((!moved' || moved) && calls.ble calls') = true) : r.TakesFrom P rank moved' calls' := by
  obtain ⟨hmoved, hcalls⟩ := Bool.and_eq_true_iff.mp hfits
  refine h.mono (fun hmoved' => ?_) (Nat.le_of_ble_eq_true hcalls)
  rw [hmoved'] at hmoved
  exact hmoved

theorem takesFrom_pure {a : α} : (pure a : Rule α).TakesFrom P rank false calls := fun c _ => .refl c

/-- What comes behind a character that is read may ask for goals of any rank. -/
theorem TakesFrom.andThen {r : Rule α} {f : α → Rule β} (hr : r.TakesFrom P rank moved calls)
    (hf : ∀ a, (f a).Takes (Goal.rankBehind rank moved) moved' calls') :
    (r >>= f).TakesFrom P rank (moved || moved') (calls + calls') :=
  fun c hc => (hr c hc).bind fun a d hd =>
    (hf a d trivial).mono (hd.weight_le rank) (Nat.le_refl _) fun _ he => hd.trans he

/-- What is still to be read behind a rule, and how many goals may still be asked for. -/
theorem TakesFrom.bind {r : Rule α} {f : α → Rule β} (hr : r.TakesFrom P rank moved calls)
    (hcalls : calls.ble calls' = true)
    (hf : ∀ a, (f a).Takes (Goal.rankBehind rank moved) (moved' && !moved) (calls' - calls)) :
    (r >>= f).TakesFrom P rank moved' calls' := by
  have hle := Nat.le_of_ble_eq_true hcalls
  refine (hr.andThen hf).mono (fun h => ?_) (by omega)
  rw [h]
  cases moved <;> rfl

/-- What only looks reads nothing. -/
theorem TakesFrom.peek {r : Rule α} {f : α → Rule β} (hr : r.Peeks)
    (hf : ∀ a, (f a).TakesFrom P rank moved calls) : (r >>= f).TakesFrom P rank moved calls := by
  intro c hc
  obtain ⟨a, ha⟩ := hr c
  show ((r c).bind f).Descends _ _ _
  rw [ha]
  exact hf a c hc

theorem takesFrom_pure_bind {a : α} {f : α → Rule β} (hf : (f a).TakesFrom P rank moved calls) :
    ((pure a : Rule α) >>= f).TakesFrom P rank moved calls := hf

theorem TakesFrom.ite {c : Prop} [Decidable c] {r s : Rule α} (hr : r.TakesFrom P rank moved calls)
    (hs : s.TakesFrom P rank moved calls) : (if c then r else s).TakesFrom P rank moved calls := by
  split
  · exact hr
  · exact hs

theorem TakesFrom.dite {c : Prop} [Decidable c] {r s : Rule α} (hr : c → r.TakesFrom P rank moved calls)
    (hs : ¬ c → s.TakesFrom P rank moved calls) : (if c then r else s).TakesFrom P rank moved calls := by
  split
  · next h => exact hr h
  · next h => exact hs h

/-- A rule that refuses the text reads as much as anyone asks for. -/
theorem takesFrom_refuse : (refuse : Rule α).TakesFrom P rank moved calls := by
  intro c _
  rw [refuse]
  split
  · trivial
  · trivial

theorem takesFrom_refuseFrom {line : Nat} : (refuseFrom line : Rule α).TakesFrom P rank moved calls :=
  fun _ _ => trivial

/-! ## Looking ahead -/

theorem peeks_cursor : cursor.Peeks := fun c => ⟨c, rfl⟩

theorem peeks_omits {operand : Bool} : (omits operand).Peeks := fun _ => ⟨_, rfl⟩

theorem peeks_ends {site : Site} : (ends site).Peeks := fun _ => ⟨_, rfl⟩

theorem takesFrom_here_bind {f : Cursor → Rule β}
    (hf : ∀ here, P here → (f here).TakesFrom (· = here) rank moved calls) :
    (cursor >>= f).TakesFrom P rank moved calls :=
  fun c hc => hf c hc c rfl

theorem takesFrom_look_bind {f : List Char → Rule β}
    (hf : ∀ text, (f text).TakesFrom (Cursor.Facing text) rank moved calls) :
    (look >>= f).TakesFrom P rank moved calls := by
  intro c _
  show ((look c).bind f).Descends _ _ _
  rw [look]
  split
  · next d hd =>
    obtain ⟨hfacing, hbehind⟩ := Cursor.facing_skip hd
    exact (hf d.rest d hfacing).mono (hbehind.weight_le rank) (Nat.le_refl _) fun _ he => hbehind.trans he
  · trivial

theorem takesFrom_lookBehind_bind {f : List Char → Rule β}
    (hf : ∀ text, (f text).TakesFrom (Cursor.Facing text) rank moved calls) :
    (lookBehind >>= f).TakesFrom P rank moved calls := by
  intro c _
  show ((lookBehind c).bind f).Descends _ _ _
  rw [lookBehind]
  split
  · next d hd =>
    obtain ⟨hfacing, hbehind⟩ := Cursor.facing_skip hd
    exact (hf d.rest d hfacing).mono (hbehind.weight_le rank) (Nat.le_refl _) fun _ he => hbehind.trans he
  · trivial

theorem takesFrom_closeBlock : closeBlock.TakesFrom P rank false 0 := fun c _ => Nat.le_refl c.rest.length

/-! ## Tokens -/

theorem takesFrom_extras : extras.TakesFrom P rank false 0 := by
  intro c _
  rw [extras]
  split
  · next d hd => exact (Cursor.facing_skip hd).2
  · trivial

/-- Where the space before a text is passed already, nothing but comments is taken. -/
theorem takesFrom_extras_bind {text : List Char} {f : List Tree → Rule β}
    (hf : ∀ before, (f before).TakesFrom (Cursor.Facing text) rank moved calls) :
    (extras >>= f).TakesFrom (Cursor.Facing text) rank moved calls := by
  intro c hc
  have hskip : c.skip true = .ok c := by rw [Cursor.skip, if_pos hc.1]
  show ((extras c).bind f).Descends _ _ _
  rw [extras, hskip]
  exact hf _ { c with pending := [] } hc

theorem takesFrom_leaf {kind : Kind} {taken rest : List Char}
    (h : ∀ c, P c → rest.length + moved.toNat ≤ c.rest.length) :
    (leaf kind taken rest).TakesFrom P rank moved 0 :=
  fun c hc => h c hc

theorem takesFrom_leaf_facing {kind : Kind} {taken rest text : List Char} (h : rest.length < text.length) :
    (leaf kind taken rest).TakesFrom (Cursor.Facing text) rank true 0 :=
  takesFrom_leaf fun c hc => by
    rw [hc.2]
    exact h

theorem takesFrom_leaf_here {kind : Kind} {taken rest : List Char} {here : Cursor}
    (h : rest.length < here.rest.length) : (leaf kind taken rest).TakesFrom (· = here) rank true 0 :=
  takesFrom_leaf fun c hc => by
    rw [hc]
    exact h

theorem takesFrom_leafOf {kind : Kind} {length : Nat} : (leafOf kind length).TakesFrom P rank false 0 :=
  takesFrom_here_bind fun here _ => takesFrom_leaf fun c hc => by
    rw [hc]
    exact (List.drop_sublist length here.rest).length_le

theorem takesFrom_leafOf_of_ne {kind : Kind} {length : Nat} (hlength : 0 < length)
    (h : ∀ c, P c → c.rest ≠ []) : (leafOf kind length).TakesFrom P rank true 0 :=
  takesFrom_here_bind fun here hhere => takesFrom_leaf fun c hc => by
    have hpos := List.length_pos_iff.mpr (h here hhere)
    rw [hc, List.length_drop, Bool.toNat_true]
    omega

theorem takesFrom_leafOf_facing {kind : Kind} {length : Nat} {c : Char} {text : List Char} :
    (leafOf kind (length + 1)).TakesFrom (Cursor.Facing (c :: text)) rank true 0 :=
  takesFrom_leafOf_of_ne (Nat.succ_pos _) fun _ hd => by simp [hd.2]

theorem takesFrom_leafOf_here {kind : Kind} {length : Nat} {here : Cursor} {c : Char} {text : List Char}
    (h : here.rest = c :: text) : (leafOf kind (length + 1)).TakesFrom (· = here) rank true 0 :=
  takesFrom_leafOf_of_ne (Nat.succ_pos _) fun _ hd => by simp [hd, h]

theorem takesFrom_mark {spelling : List Char} (h : spelling.isEmpty = false) :
    (mark spelling).TakesFrom P rank true 0 := by
  refine takesFrom_look_bind fun text => .dite (fun hstart => ?_) fun _ => takesFrom_refuse
  obtain ⟨rest, rfl⟩ := List.isPrefixOf_iff_prefix.mp hstart
  have hpos : 0 < spelling.length := List.length_pos_iff.mpr fun hnil => by simp [hnil] at h
  refine takesFrom_leaf_facing ?_
  rw [List.length_drop, List.length_append]
  omega

theorem takesFrom_keyword {word : String} (h : word.toList.isEmpty = false) :
    (keyword word).TakesFrom P rank true 0 := by
  refine takesFrom_look_bind fun text => .dite (fun hfound => ?_) fun _ => takesFrom_refuse
  rw [← beq_iff_eq.mp hfound] at h
  exact takesFrom_leaf_facing (Lexeme.length_name_lt h)

theorem takesFrom_variableName {kind : Kind} : (variableName kind).TakesFrom P rank true 0 := by
  refine takesFrom_look_bind fun text => .dite (fun _ => takesFrom_refuse) fun hname => ?_
  rw [Bool.or_eq_true, not_or] at hname
  exact takesFrom_leaf_facing (Lexeme.length_name_lt (Bool.eq_false_iff.mpr hname.1))

/-- A token that is scanned is as long as its reader says. -/
theorem takesFrom_scanned {kind : Kind} {scan : List Char → Lexeme.Scan}
    (h : ∀ text taken rest, scan text = .done taken rest → rest.length + moved.toNat ≤ text.length) :
    (scanned kind scan).TakesFrom P rank moved 0 := by
  refine takesFrom_here_bind fun here _ => ?_
  split
  · next taken rest hscan =>
    refine takesFrom_leaf fun c hc => ?_
    rw [hc]
    exact h here.rest taken rest hscan
  · exact .ite takesFrom_refuse fun _ _ => trivial

theorem takesFrom_semicolon {operand : Bool} : (semicolon operand).TakesFrom P rank false 0 := by
  refine .peek peeks_omits fun omitted => .ite (fun c _ => Nat.le_refl c.rest.length) ?_
  refine takesFrom_lookBehind_bind fun text => ?_
  split
  · exact .of (takesFrom_leaf_facing (Nat.lt_succ_self _)) rfl
  · exact takesFrom_refuse

/-! ## Rules that are put together -/

/-- Only goals of a smaller rank can be asked for before a character is read. -/
theorem takesFrom_call {goal : Goal} (h : goal.rank.blt rank = true) :
    (call goal).TakesFrom P rank goal.advances 1 := by
  rw [Nat.blt_eq] at h
  exact fun c _ => ⟨Nat.add_lt_add_left h _, fun _ _ hd => hd⟩

theorem takesFrom_choose {first second : Goal} (hfirst : first.rank.blt rank = true)
    (hsecond : second.rank.blt rank = true) :
    (choose first second).TakesFrom P rank (first.advances && second.advances) 1 := by
  rw [Nat.blt_eq] at hfirst hsecond
  exact fun c _ => ⟨⟨Nat.add_lt_add_left hfirst _, Nat.add_lt_add_left hsecond _⟩, fun _ _ hd => hd⟩

/-- Putting trees together reads nothing. -/
theorem TakesFrom.map {r : Rule α} (hr : r.TakesFrom P rank moved calls) (f : α → β) :
    (r >>= fun a => (pure (f a) : Rule β)).TakesFrom P rank moved calls :=
  (hr.andThen fun _ => @takesFrom_pure β _ _ 0 _).mono (by simp) (Nat.le_refl _)

theorem takesFrom_part {goal : Goal} (h : goal.rank.blt rank = true) :
    (part goal).TakesFrom P rank goal.advances 1 :=
  (TakesFrom.andThen takesFrom_extras fun _ => (takesFrom_call h).map _).mono (by simp) (by simp)

theorem TakesFrom.append {r s : Rule (List Tree)} (hr : r.TakesFrom P rank moved calls)
    (hs : s.Takes (Goal.rankBehind rank moved) moved' calls') :
    (r ++ s).TakesFrom P rank (moved || moved') (calls + calls') :=
  hr.andThen fun _ => hs.map _

theorem TakesFrom.whenNext {r : Rule (List Tree)} (hr : r.Takes rank moved calls) {test : List Char → Bool} :
    (Rule.whenNext test r).TakesFrom P rank false calls :=
  takesFrom_look_bind fun _ => .ite (hr.takesFrom.mono (by simp) (Nat.le_refl _)) takesFrom_pure

theorem TakesFrom.construct {r : Rule (List Tree)} (hr : r.Takes rank moved calls) {kind : Kind} :
    (Rule.construct kind r).TakesFrom P rank moved calls :=
  (TakesFrom.andThen takesFrom_extras fun _ => .peek peeks_cursor fun _ => hr.map _).mono (by simp) (by simp)

/-- The same where the space before a text is passed already. -/
theorem TakesFrom.constructFacing {text : List Char} {r : Rule (List Tree)}
    (hr : r.TakesFrom (Cursor.Facing text) rank moved calls) {kind : Kind} :
    (Rule.construct kind r).TakesFrom (Cursor.Facing text) rank moved calls :=
  takesFrom_extras_bind fun _ => .peek peeks_cursor fun _ => hr.map _

theorem takesFrom_one {trees : List Tree} : (one trees).TakesFrom P rank false 0 := by
  unfold one
  split
  · exact takesFrom_pure
  · exact takesFrom_refuse

end

end Rule

/-! ## The machine -/

namespace Machine

/-- What the machine has come to after a number of moves. -/
def after (rules : Goal → Rule (List Tree)) : Nat → State → Status
  | 0, s => .running s
  | n + 1, s => (move rules s).andThen (after rules n)

theorem Status.andThen_andThen (status : Status) (f g : State → Status) :
    (status.andThen f).andThen g = status.andThen fun s => (f s).andThen g := by
  cases status <;> rfl

theorem after_add (rules : Goal → Rule (List Tree)) (m n : Nat) (s : State) :
    after rules (m + n) s = (after rules m s).andThen (after rules n) := by
  induction m generalizing s with
  | zero =>
    rw [Nat.zero_add]
    rfl
  | succ m ih =>
    rw [Nat.succ_add, after, after, Status.andThen_andThen]
    exact congrArg (Status.andThen · (move rules s)) (funext ih)

theorem moves_eq_after (rules : Goal → Rule (List Tree)) (power : Nat) :
    moves rules power = after rules (2 ^ power) := by
  induction power with
  | zero =>
    funext s
    rw [moves, Nat.pow_zero, after]
    cases move rules s <;> rfl
  | succ power ih =>
    funext s
    rw [moves, ih, Nat.pow_succ, Nat.mul_two, after_add]

/-- The rounds make one move less than the power of which the next round would be. -/
theorem runFrom_eq_after (rules : Goal → Rule (List Tree)) (rounds power : Nat) :
    runFrom rules rounds power = after rules (2 ^ power * (2 ^ rounds - 1)) := by
  induction rounds generalizing power with
  | zero =>
    funext s
    rfl
  | succ rounds ih =>
    have hsum : 2 ^ power * (2 ^ (rounds + 1) - 1) = 2 ^ power + 2 ^ (power + 1) * (2 ^ rounds - 1) := by
      obtain ⟨rest, hrest⟩ : ∃ rest, 2 ^ rounds = rest + 1 :=
        ⟨2 ^ rounds - 1, (Nat.sub_add_cancel (Nat.one_le_two_pow)).symm⟩
      rw [Nat.pow_succ 2 rounds, hrest, Nat.pow_succ]
      have hpred : (rest + 1) * 2 - 1 = 1 + 2 * rest := by omega
      rw [hpred, Nat.add_sub_cancel]
      ring
    funext s
    rw [runFrom, moves_eq_after, ih, hsum, after_add]

/-- The machine is no longer running. -/
def Status.Ended : Status → Prop
  | .running _ => False
  | .found _ => True
  | .refused _ => True

/-- A step on top of a stack comes to its end within a number of moves: it is done, at a cursor with the
property `Q`, or it fails, and then the last choice of the stack is left as it was. -/
inductive Ends (rules : Goal → Rule (List Tree)) (stack : List Frame) (Q : Cursor → Prop) : Nat → State → Prop
  | done {moves : Nat} {refusal : Option Refusal} {ts : List Tree} {d : Cursor} (hd : Q d) :
      Ends rules stack Q moves { refusal, stack, step := .done ts d }
  | fail {moves : Nat} {refusal : Option Refusal} {above : List Frame} {d : Cursor}
      (habove : fallback? above = fallback? stack) :
      Ends rules stack Q moves { refusal, stack := above, step := .fail d }
  | next {moves : Nat} {s t : State} (hmove : move rules s = .running t) (ht : Ends rules stack Q moves t) :
      Ends rules stack Q (moves + 1) s

section

variable {rules : Goal → Rule (List Tree)} {stack stack' : List Frame} {P Q : Cursor → Prop} {m n : Nat}
  {s t : State}

theorem Ends.mono (h : Ends rules stack Q m s) (hle : m ≤ n) : Ends rules stack Q n s := by
  induction h generalizing n with
  | done hd => exact .done hd
  | fail habove => exact .fail habove
  | next hmove _ ih =>
    obtain ⟨n, rfl⟩ : ∃ more, n = more + 1 := ⟨n - 1, by omega⟩
    exact .next hmove (ih (by omega))

theorem Ends.imp (h : Ends rules stack P m s) (hQ : ∀ d, P d → Q d) : Ends rules stack Q m s := by
  induction h with
  | done hd => exact .done (hQ _ hd)
  | fail habove => exact .fail habove
  | next hmove _ ih => exact .next hmove ih

/-- Where a step has come to its end, the machine goes on from there. -/
theorem Ends.bind (h : Ends rules stack P m s)
    (hdone : ∀ refusal ts d, P d → Ends rules stack' Q n { refusal, stack, step := .done ts d })
    (hfail : ∀ refusal above d, fallback? above = fallback? stack →
      Ends rules stack' Q n { refusal, stack := above, step := .fail d }) :
    Ends rules stack' Q (m + n) s := by
  induction h with
  | done hd => exact (hdone _ _ _ hd).mono (Nat.le_add_left _ _)
  | fail habove => exact (hfail _ _ _ habove).mono (Nat.le_add_left _ _)
  | next hmove _ ih =>
    rw [Nat.succ_add]
    exact .next hmove ih

/-- The trees that a goal finds are handed to the rest of the step that asked for it. -/
theorem Ends.resume {next : List Tree → Cursor → Step (List Tree)}
    (h : Ends rules (.resume next :: stack) P m s)
    (hnext : ∀ refusal ts d, P d → Ends rules stack Q n { refusal, stack, step := next ts d }) :
    Ends rules stack Q (m + (n + 1)) s :=
  h.bind (fun refusal ts d hd => .next rfl (hnext refusal ts d hd)) fun _ _ _ habove => .fail habove

/-- If the first goal of a choice fails, the second is tried from the same place. -/
theorem Ends.otherwise {goal : Goal} {here : Cursor} (h : Ends rules (.otherwise goal here :: stack) P m s)
    (hgoal : ∀ refusal, Ends rules stack P n { refusal, stack, step := rules goal here }) :
    Ends rules stack P (m + (n + 1)) s := by
  refine h.bind (fun _ _ _ hd => .next rfl (.done hd)) fun refusal above d habove => ?_
  have hmove : move rules { refusal, stack := above, step := .fail d } =
      .running { refusal := some (Refusal.later refusal d), stack, step := rules goal here } := by
    simp only [move, habove, fallback?]
  exact .next hmove (hgoal _)

end

/-- What the goals of a rule take together, if each of them takes no more than a power of moves. -/
theorem mul_le_pow_succ {calls : Nat} (hcalls : 0 < calls) (weight : Nat) :
    calls * (2 * (5 * calls) ^ weight + 3) ≤ (5 * calls) ^ (weight + 1) := by
  have hone : 1 ≤ (5 * calls) ^ weight := Nat.one_le_pow _ _ (by omega)
  calc calls * (2 * (5 * calls) ^ weight + 3)
      ≤ calls * (5 * (5 * calls) ^ weight) := Nat.mul_le_mul_left calls (by omega)
    _ = (5 * calls) ^ (weight + 1) := by ring

section

variable {rules : Goal → Rule (List Tree)} {calls : Nat} (hcalls : 0 < calls)
  (hrules : ∀ goal, (rules goal).Takes goal.rank goal.advances calls)
include hcalls hrules

/-- **Step.** A step that asks for a number of goals below a limit comes to its end. Each goal takes a power
of moves, and a choice takes two goals and three moves more. -/
theorem ends_of_descends {limit : Nat} {Q : Cursor → Prop} {step : Step (List Tree)} {goals : Nat}
    (h : step.Descends limit Q goals) (refusal : Option Refusal) (stack : List Frame) :
    Ends rules stack Q (goals * (2 * (5 * calls) ^ limit + 3)) { refusal, stack, step } := by
  induction limit using Nat.strongRecOn generalizing Q step goals refusal stack with
  | ind limit ihlimit =>
  -- a goal below the limit takes at most that power of moves itself
  have hgoal : ∀ (goal : Goal) (here : Cursor) refusal stack, here.weight goal.rank < limit →
      Ends rules stack (here.Behind goal.advances) ((5 * calls) ^ limit)
        { refusal, stack, step := rules goal here } := by
    intro goal here refusal stack hlt
    have hpow : (5 * calls) ^ (here.weight goal.rank + 1) ≤ (5 * calls) ^ limit :=
      Nat.pow_le_pow_right (by omega) hlt
    exact (ihlimit _ hlt (hrules goal here trivial) refusal stack).mono
      (Nat.le_trans (mul_le_pow_succ hcalls _) hpow)
  generalize (5 * calls) ^ limit = power at *
  induction step generalizing goals refusal stack with
  | done ts d => exact .done h
  | fail d => exact .fail rfl
  | call goal here next ih =>
    cases goals with
    | zero => exact h.elim
    | succ goals =>
      obtain ⟨hlt, hnext⟩ := h
      have hresume := (hgoal goal here refusal (.resume next :: stack) hlt).resume
        fun refusal ts d hd => ih ts d (hnext ts d hd) refusal stack
      have hsucc : (goals + 1) * (2 * power + 3) = goals * (2 * power + 3) + (2 * power + 3) :=
        Nat.succ_mul _ _
      exact (Ends.next rfl hresume).mono (by omega)
  | choose first second here next ih =>
    cases goals with
    | zero => exact h.elim
    | succ goals =>
      obtain ⟨⟨hfirst, hsecond⟩, hnext⟩ := h
      -- whichever goal is found, the cursor has moved as far as both of them promise
      have htried := ((hgoal first here refusal (.otherwise second here :: .resume next :: stack) hfirst).imp
        fun d hd => hd.mono (fun h => (Bool.and_eq_true_iff.mp h).1)).otherwise
        fun refusal => (hgoal second here refusal (.resume next :: stack) hsecond).imp
          fun d hd => hd.mono fun h => (Bool.and_eq_true_iff.mp h).2
      have hresume := htried.resume fun refusal ts d hd => ih ts d (hnext ts d hd) refusal stack
      have hsucc : (goals + 1) * (2 * power + 3) = goals * (2 * power + 3) + (2 * power + 3) :=
        Nat.succ_mul _ _
      exact (Ends.next rfl hresume).mono (by omega)

end

/-- A state that ends within fewer moves than are made has ended. -/
theorem ended_after_of_ends {rules : Goal → Rule (List Tree)} {Q : Cursor → Prop} {m n : Nat} {s : State}
    (h : Ends rules [] Q m s) (hlt : m < n) : (after rules n s).Ended := by
  obtain ⟨n, rfl⟩ : ∃ more, n = more + 1 := ⟨n - 1, by omega⟩
  rw [after]
  induction h generalizing n with
  | done hd => trivial
  | fail habove =>
    have hmove : ∀ refusal above d, fallback? above = fallback? [] →
        ((move rules { refusal, stack := above, step := .fail d }).andThen (after rules n)).Ended := by
      intro refusal above d habove
      simp only [move, habove, fallback?]
      trivial
    exact hmove _ _ _ habove
  | next hmove _ ih =>
    obtain ⟨n, rfl⟩ : ∃ more, n = more + 1 := ⟨n - 1, by omega⟩
    rw [hmove]
    exact ih n (by omega)

/-- **Run.** With rules that ask for a bounded number of goals, a step that asks for goals below a limit is run
to its end in as many rounds as the bound of its moves has binary digits. -/
theorem ended_run {rules : Goal → Rule (List Tree)} {calls : Nat} (hcalls : 0 < calls)
    (hrules : ∀ goal, (rules goal).Takes goal.rank goal.advances calls) {limit goals rounds : Nat}
    {Q : Cursor → Prop} {step : Step (List Tree)} (h : step.Descends limit Q goals)
    (hrounds : goals * (2 * (5 * calls) ^ limit + 3) + 1 < 2 ^ rounds) : (run rules rounds step).Ended := by
  have hends := ends_of_descends hcalls hrules h none []
  rw [run, runFrom_eq_after, Nat.pow_zero, Nat.one_mul]
  exact ended_after_of_ends hends (by omega)

theorem after_eq_of_ended {rules : Goal → Rule (List Tree)} {m n : Nat} {s : State} (h : (after rules m s).Ended)
    (hle : m ≤ n) : after rules n s = after rules m s := by
  obtain ⟨more, rfl⟩ := Nat.exists_eq_add_of_le hle
  rw [after_add]
  cases hafter : after rules m s with
  | running t =>
    rw [hafter] at h
    exact h.elim
  | found trees => rfl
  | refused line => rfl

/-- Where the machine is no longer running, more rounds make no difference. -/
theorem run_eq_of_ended {rules : Goal → Rule (List Tree)} {rounds more : Nat} {step : Step (List Tree)}
    (h : (run rules rounds step).Ended) (hmore : rounds ≤ more) : run rules more step = run rules rounds step := by
  have hpow : 2 ^ rounds - 1 ≤ 2 ^ more - 1 := Nat.sub_le_sub_right (Nat.pow_le_pow_right (by decide) hmore) 1
  simp only [run, runFrom_eq_after, Nat.pow_zero, Nat.one_mul] at *
  exact after_eq_of_ended h hpow

end Machine

end Phrasebook.Script
