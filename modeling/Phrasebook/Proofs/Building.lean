import Phrasebook.Proofs.Traversal

/-!
# Phrasebook — lowering, round by round

Lowering is a loop over a stack of plans. This module follows the loop itself, without fuel: a *round* looks
at the plan on top of the stack, and either starts the plan of the next node that it asks for, or builds its
node and hands it to the plan below. A *run* is a finite sequence of rounds that comes to an end, and lists
what was built on the way (`Runs`). There is exactly one run from every tree.

On the other side stands the recursion that the loop replaces: `byRecursion` lowers the nodes that a plan
asks for, one after the other, and builds the node from them. The nodes that it comes to, parents behind
their children, are `planned`. The run builds them in this order, each once, from the kept trees of the
nodes that its plan asks for. If a node cannot be built, the run ends there, with the failure of that node.

What carries the induction is that a stack does not look below its top: whatever waits there, the rounds for
a tree are the same, and when they are over the kept tree is handed on.

Main results:

* `carryOut_succ`, `carryOut_of_runs` — rounds are what the machine does, as long as its fuel lasts;
* `Runs.unique` — a state has one run;
* `byRecursion_eq`, `byRecursion_eq_lower` — the equation of the recursion, and lowering is the recursion;
* `runs_of_lower_ok`, `runs_of_lower_error` — the rounds for a tree with a kept tree, and for one without;
* `run_of_lower` — the run from a tree builds every node once, and comes to what the recursion makes of it.
-/

namespace Phrasebook.Script.Lower

/-! ## Rounds -/

/-- A builder, and the parts that it is given. -/
structure Building where
  build : List Node → Except Escape.Failure Node
  parts : List Node

/-- The loop between two rounds: at work on a stack, or at its end. -/
inductive State where
  | atWork (stack : List Frame)
  | ended (result : Except Escape.Failure Node)

/-- The loop after a node was built: the plan below gets it. Without one, and after a failure, it ends. -/
def handOn : List Frame → Except Escape.Failure Node → State
  | _, .error failure => .ended (.error failure)
  | [], .ok node => .ended (.ok node)
  | parent :: stack, .ok node => .atWork ({ parent with done := node :: parent.done } :: stack)

/-- A round of the loop: what it builds, and how the loop goes on. -/
def round (frame : Frame) (stack : List Frame) : List Building × State :=
  match frame.pending with
  | t :: rest => ([], .atWork ((plan t).start :: { frame with pending := rest } :: stack))
  | [] => ([⟨frame.build, frame.done.reverse⟩], handOn stack (frame.build frame.done.reverse))

/-- A run of the loop to its end: what is built on the way, and what comes of it. -/
inductive Runs : State → List Building → Except Escape.Failure Node → Prop
  | ended (result : Except Escape.Failure Node) : Runs (.ended result) [] result
  | round {frame : Frame} {stack : List Frame} {later : List Building} {result : Except Escape.Failure Node}
      (hlater : Runs (round frame stack).2 later result) :
      Runs (.atWork (frame :: stack)) ((round frame stack).1 ++ later) result

/-- **Rounds are what the machine does.** -/
theorem carryOut_succ (fuel : Nat) (frame : Frame) (stack : List Frame) :
    carryOut (fuel + 1) (frame :: stack) =
      match (round frame stack).2 with
      | .atWork stack => carryOut fuel stack
      | .ended result => result := by
  rw [carryOut, round]
  cases frame.pending with
  | cons t rest => rfl
  | nil =>
    cases frame.build frame.done.reverse with
    | error failure => rfl
    | ok node => cases stack <;> rfl

/-- The machine comes to the result of a run, given as much fuel as there are rounds. -/
theorem carryOut_of_runs {stack : List Frame} {buildings : List Building}
    {result : Except Escape.Failure Node} (h : Runs (.atWork stack) buildings result) :
    ∃ rounds, ∀ fuel, carryOut (rounds + fuel) stack = result := by
  -- by induction on the run, with one unit of fuel for each round
  generalize hstate : State.atWork stack = state at h
  induction h generalizing stack with
  | ended result => cases hstate
  | @round frame rest later result hlater ih =>
    cases hstate
    cases hnext : (round frame rest).2 with
    | ended last =>
      -- the last round ends the machine, whatever fuel is left
      rw [hnext] at hlater
      cases hlater
      refine ⟨1, fun fuel => ?_⟩
      rw [Nat.add_comm, carryOut_succ, hnext]
    | atWork next =>
      obtain ⟨rounds, hrounds⟩ := ih hnext.symm
      refine ⟨rounds + 1, fun fuel => ?_⟩
      have hfuel : rounds + 1 + fuel = rounds + fuel + 1 := by omega
      rw [hfuel, carryOut_succ, hnext]
      exact hrounds fuel

/-- **A state has one run.** -/
theorem Runs.unique {state : State} {buildings buildings' : List Building}
    {result result' : Except Escape.Failure Node} (h : Runs state buildings result)
    (h' : Runs state buildings' result') : buildings = buildings' ∧ result = result' := by
  induction h generalizing buildings' with
  | ended result =>
    cases h'
    exact ⟨rfl, rfl⟩
  | round _ ih =>
    cases h' with
    | round hlater =>
      obtain ⟨rfl, rfl⟩ := ih hlater
      exact ⟨rfl, rfl⟩

/-- A plan that asks for a tree waits for the plan of that tree. -/
theorem Runs.ask {t : Tree} {rest : List Tree} {build : List Node → Except Escape.Failure Node}
    {done : List Node} {stack : List Frame} {buildings : List Building}
    {result : Except Escape.Failure Node}
    (h : Runs (.atWork ((plan t).start :: { pending := rest, build, done } :: stack)) buildings result) :
    Runs (.atWork ({ pending := t :: rest, build, done } :: stack)) buildings result :=
  @Runs.round ⟨t :: rest, build, done⟩ stack _ _ h

/-- A plan that asks for no more builds its node. -/
theorem Runs.build {build : List Node → Except Escape.Failure Node} {done : List Node}
    {stack : List Frame} {later : List Building} {result : Except Escape.Failure Node}
    (h : Runs (handOn stack (build done.reverse)) later result) :
    Runs (.atWork ({ pending := [], build, done } :: stack)) (⟨build, done.reverse⟩ :: later) result :=
  @Runs.round ⟨[], build, done⟩ stack _ _ h

/-! ## Recursion -/

/-- The kept tree of a concrete tree, by recursion. -/
def byRecursion (t : Tree) : Except Escape.Failure Node := do
  let parts ← (plan t).pending.attach.mapM fun c => byRecursion c.1
  (plan t).build parts
termination_by t.size
decreasing_by exact size_lt_of_mem_pending c.2

/-- The nodes for which recursion carries out a plan, parents behind their children. -/
def planned (t : Tree) : List Tree :=
  ((plan t).pending.attach.flatMap fun c => planned c.1) ++ [t]
termination_by t.size
decreasing_by exact size_lt_of_mem_pending c.2

/-- **The equation of the recursion.** -/
theorem byRecursion_eq (t : Tree) :
    byRecursion t = (plan t).pending.mapM byRecursion >>= (plan t).build := by
  rw [byRecursion, List.mapM_subtype fun _ _ => rfl, List.unattach_attach]

theorem planned_eq (t : Tree) : planned t = (plan t).pending.flatMap planned ++ [t] := by
  rw [planned, List.flatMap_subtype fun _ _ => rfl, List.unattach_attach]

/-- **Lowering is the recursion.** -/
theorem byRecursion_eq_lower : byRecursion = lower := by
  funext t
  -- the nodes that a plan asks for are smaller
  induction hsize : t.size using Nat.strongRecOn generalizing t with
  | ind size ih =>
    subst hsize
    have hpending : (fun c : { c // c ∈ (plan t).pending } => byRecursion c.1) = fun c => lower c.1 :=
      funext fun c => ih c.1.size (size_lt_of_mem_pending c.2) c.1 rfl
    rw [byRecursion, hpending, List.mapM_subtype fun _ _ => rfl, List.unattach_attach, lower_eq]

/-- All nodes that are planned for a tree with a kept tree have one. -/
theorem lower_ok_of_planned {t : Tree} {node : Node} (h : lower t = .ok node) :
    ∀ s ∈ planned t, ∃ n, lower s = .ok n := by
  refine lower_induction (motive := fun t _ => ∀ s ∈ planned t, ∃ n, lower s = .ok n) ?_ h
  intro t parts node hparts hbuild s hs
  obtain ⟨hbelow, hlowered⟩ := (List.forall₂_and_left _ _).mp (hparts.imp fun _ _ hpart => hpart.symm)
  rw [planned_eq, List.mem_append, List.mem_flatMap, List.mem_singleton] at hs
  rcases hs with ⟨c, hc, hs⟩ | rfl
  · exact hbelow c hc s hs
  · refine ⟨node, ?_⟩
    rw [lower_eq, mapM_of_forall₂ hlowered]
    exact hbuild

theorem lower_ok_of_flatMap_planned {ts : List Tree} {nodes : List Node} (h : ts.mapM lower = .ok nodes) :
    ∀ s ∈ ts.flatMap planned, ∃ n, lower s = .ok n := by
  have hts : ∀ t ∈ ts, ∀ s ∈ planned t, ∃ n, lower s = .ok n :=
    ((List.forall₂_and_left _ _).mp
      ((forall₂_of_mapM_ok h).imp fun _ _ ht => ⟨lower_ok_of_planned ht, ht⟩)).1
  intro s hs
  obtain ⟨t, ht, hs⟩ := List.mem_flatMap.mp hs
  exact hts t ht s hs

/-! ## The rounds for a tree -/

/-- A building for a node: its plan builds it from the kept trees of the nodes that it asks for. -/
structure Builds (t : Tree) (b : Building) : Prop where
  build : b.build = (plan t).build
  parts : (plan t).pending.mapM byRecursion = .ok b.parts

/-- A node whose plan fails, although all nodes that it asks for have kept trees. -/
def FailsAt (t : Tree) (failure : Escape.Failure) : Prop :=
  ∃ parts, (plan t).pending.mapM byRecursion = .ok parts ∧ (plan t).build parts = .error failure

/-- The rounds for a tree hand on its kept tree, whatever waits below, and build what is planned. -/
def Completes (t : Tree) (node : Node) : Prop :=
  ∃ buildings, List.Forall₂ Builds (planned t) buildings ∧
    ∀ stack later result, Runs (handOn stack (.ok node)) later result →
      Runs (.atWork ((plan t).start :: stack)) (buildings ++ later) result

/-- **Run of one plan.** The nodes that are asked for first are built one after the other. -/
theorem runs_pending {ts : List Tree} {nodes : List Node} (h : List.Forall₂ Completes ts nodes) :
    ∃ buildings, List.Forall₂ Builds (ts.flatMap planned) buildings ∧
      ∀ rest build done stack later result,
        Runs (.atWork ({ pending := rest, build, done := nodes.reverse ++ done } :: stack)) later result →
        Runs (.atWork ({ pending := ts ++ rest, build, done } :: stack)) (buildings ++ later) result := by
  induction h with
  | nil => exact ⟨[], .nil, fun _ _ _ _ _ _ hlater => hlater⟩
  | @cons t node ts nodes hfirst _ ih =>
    obtain ⟨first, hbuilds, hrun⟩ := hfirst
    obtain ⟨others, hothers, hruns⟩ := ih
    refine ⟨first ++ others, List.rel_append hbuilds hothers, ?_⟩
    intro rest build done stack later result hlater
    rw [List.append_assoc]
    refine Runs.ask (hrun _ _ _ ?_)
    -- the node of the first tree is done, the others are still asked for
    refine hruns rest build (node :: done) stack later result ?_
    rw [List.reverse_cons, List.append_assoc] at hlater
    exact hlater

/-- **Run of one tree.** When all nodes that its plan asks for are done, the plan builds its node from them,
and hands on what comes of it. -/
theorem runs_planned {t : Tree} {parts : List Node} (hparts : (plan t).pending.mapM lower = .ok parts)
    (hcompletes : List.Forall₂ Completes (plan t).pending parts) :
    ∃ buildings, List.Forall₂ Builds (planned t) buildings ∧
      ∀ stack later result, Runs (handOn stack ((plan t).build parts)) later result →
        Runs (.atWork ((plan t).start :: stack)) (buildings ++ later) result := by
  obtain ⟨buildings, hbuilds, hruns⟩ := runs_pending hcompletes
  have hroot : Builds t ⟨(plan t).build, parts⟩ := ⟨rfl, byRecursion_eq_lower ▸ hparts⟩
  refine ⟨buildings ++ [⟨(plan t).build, parts⟩], ?_, ?_⟩
  · rw [planned_eq]
    exact List.rel_append hbuilds (.cons hroot .nil)
  · intro stack later result hlater
    -- the nodes that are done wait in reverse
    have hlast : Runs (.atWork ({ pending := [], build := (plan t).build, done := parts.reverse ++ [] } :: stack))
        (⟨(plan t).build, parts⟩ :: later) result := by
      have hbuild := @Runs.build (plan t).build parts.reverse stack later result
      rw [List.reverse_reverse] at hbuild
      rw [List.append_nil]
      exact hbuild hlater
    have hwhole := hruns [] (plan t).build [] stack _ result hlast
    rw [List.append_nil] at hwhole
    rw [List.append_assoc]
    exact hwhole

/-- **The rounds for a tree with a kept tree.** -/
theorem runs_of_lower_ok {t : Tree} {node : Node} (h : lower t = .ok node) : Completes t node := by
  refine lower_induction (motive := Completes) ?_ h
  intro t parts node hparts hbuild
  obtain ⟨buildings, hbuilds, hrun⟩ := runs_planned
    (mapM_of_forall₂ (hparts.imp fun _ _ hpart => hpart.1)) (hparts.imp fun _ _ hpart => hpart.2)
  rw [hbuild] at hrun
  exact ⟨buildings, hbuilds, hrun⟩

/-- **The rounds for a tree without one** come to the first node that cannot be built, and no further. -/
theorem runs_of_lower_error {t : Tree} {failure : Escape.Failure} (h : lower t = .error failure) :
    ∃ before s after buildings, planned t = before ++ s :: after ∧
      (∀ u ∈ before, ∃ node, lower u = .ok node) ∧ FailsAt s failure ∧
      List.Forall₂ Builds (before ++ [s]) buildings ∧
      ∀ stack, Runs (.atWork ((plan t).start :: stack)) buildings (.error failure) := by
  -- the nodes that a plan asks for are smaller
  induction hsize : t.size using Nat.strongRecOn generalizing t with
  | ind size ih =>
    subst hsize
    rw [lower_eq] at h
    cases hparts : (plan t).pending.mapM lower with
    | ok parts =>
      -- all of them have kept trees, so that it is the node itself
      rw [hparts] at h
      have hbuild : (plan t).build parts = .error failure := h
      obtain ⟨buildings, hbuilds, hrun⟩ := runs_planned hparts
        ((forall₂_of_mapM_ok hparts).imp fun _ _ => runs_of_lower_ok)
      rw [planned_eq] at hbuilds
      refine ⟨_, t, [], buildings, planned_eq t, lower_ok_of_flatMap_planned hparts,
        ⟨parts, byRecursion_eq_lower ▸ hparts, hbuild⟩, hbuilds, ?_⟩
      intro stack
      have hend := hrun stack [] (.error failure)
      rw [hbuild, List.append_nil] at hend
      exact hend (.ended _)
    | error other =>
      rw [hparts] at h
      cases h
      obtain ⟨first, c, others, nodes, hpending, hnodes, hc⟩ := exists_of_mapM_error hparts
      have hsmaller : c.size < t.size := size_lt_of_mem_pending (by rw [hpending]; simp)
      obtain ⟨before, s, after, buildings, hplanned, hbefore, hfails, hbuilds, hrun⟩ :=
        ih c.size hsmaller hc rfl
      -- those before it are built first
      obtain ⟨built, hfirst, hruns⟩ :=
        runs_pending ((forall₂_of_mapM_ok hnodes).imp fun _ _ => runs_of_lower_ok)
      refine ⟨first.flatMap planned ++ before, s, after ++ others.flatMap planned ++ [t], built ++ buildings,
        ?_, ?_, hfails, ?_, ?_⟩
      · rw [planned_eq, hpending, List.flatMap_append, List.flatMap_cons, hplanned]
        simp only [List.append_assoc, List.cons_append]
      · exact List.forall_mem_append.mpr ⟨lower_ok_of_flatMap_planned hnodes, hbefore⟩
      · rw [List.append_assoc]
        exact List.rel_append hfirst hbuilds
      · intro stack
        rw [Plan.start, hpending]
        exact hruns (c :: others) (plan t).build [] stack buildings _ (Runs.ask (hrun _))

/-- **Lowering is the recursion.** The loop comes to its end from every tree, in one way only, and with what
the recursion makes of the tree, as long as the fuel lasts; what lowering is given lasts. If the tree has a
kept tree, every planned node is built once, in the order of the recursion and from the kept trees of the
nodes that its plan asks for. Otherwise the planned nodes are built up to the first one that cannot be, and
its failure is what comes of the tree. -/
theorem run_of_lower (root : Tree) :
    lower root = byRecursion root ∧
    (∃ rounds, ∀ fuel, carryOut (rounds + fuel) [(plan root).start] = byRecursion root) ∧
    ∃ buildings, Runs (.atWork [(plan root).start]) buildings (byRecursion root) ∧
      (∀ others result, Runs (.atWork [(plan root).start]) others result →
        others = buildings ∧ result = byRecursion root) ∧
      ((∃ node, byRecursion root = .ok node ∧ List.Forall₂ Builds (planned root) buildings) ∨
        ∃ before t after failure, planned root = before ++ t :: after ∧
          (∀ s ∈ before, ∃ node, byRecursion s = .ok node) ∧ FailsAt t failure ∧
          byRecursion root = .error failure ∧ List.Forall₂ Builds (before ++ [t]) buildings) := by
  rw [byRecursion_eq_lower]
  refine ⟨rfl, ?_⟩
  cases hlower : lower root with
  | ok node =>
    obtain ⟨buildings, hbuilds, hrun⟩ := runs_of_lower_ok hlower
    -- nothing stands below the root, so the run of the root alone is the whole run
    have hend := hrun [] [] (.ok node) (.ended _)
    rw [List.append_nil] at hend
    exact ⟨carryOut_of_runs hend, buildings, hend, fun _ _ hother => hother.unique hend,
      .inl ⟨node, rfl, hbuilds⟩⟩
  | error failure =>
    obtain ⟨before, t, after, buildings, hplanned, hbefore, hfails, hbuilds, hrun⟩ := runs_of_lower_error hlower
    have hend := hrun []
    exact ⟨carryOut_of_runs hend, buildings, hend, fun _ _ hother => hother.unique hend,
      .inr ⟨before, t, after, failure, hplanned, hbefore, hfails, rfl, hbuilds⟩⟩

end Phrasebook.Script.Lower
