import LayerGraph.Proofs.Build
import LayerGraph.Proofs.Reachable
import LayerGraph.Proofs.Walk
import LayerGraph.Schedule
import Mathlib.Data.List.Permutation
import Mathlib.Data.Set.Finite.Basic

/-! # Schedules are right

A schedule lists the nodes that inputs lead to, outputs apart, each once and after its sources.
There is one unless an input leads to a node that is `Stuck`: one that depends on a cycle, or on a
node that takes nothing although it is not an input.

The walk settles which nodes these are: at its end the declared nodes that have not been placed are
the stuck ones (`mem_placed_iff_not_stuck`).  A placed node cannot be stuck because a list in which
sources come first admits an induction along the edges.  For the converse, a node that depends on no
cycle has only finitely long chains of sources behind it, and along these everything gets placed.

## Key results

- `schedule_of_inputs`: what the schedule is, in terms of the finished walk
- `schedule_cases`: the three things that can come of scheduling a graph
- `schedule_sound`: what a schedule promises
- `schedule_outcome`: when there is a schedule, and which error there is if not -/

namespace LayerGraph.Graph

open Relation

/-! ## Induction along an order -/

/-- A property that goes from the sources of a node to the node holds of all nodes in order. -/
theorem Ordered.induction {g : Graph} {order : List NodeId} (h : g.Ordered order)
    {P : NodeId → Prop} (hP : ∀ id ∈ order, (∀ s ∈ g.sourcesOf id, P s) → P id) :
    ∀ id ∈ order, P id := by
  -- The induction is on how many nodes come before.
  have go : ∀ n before id after, before.length = n → order = before ++ id :: after → P id := by
    intro n
    induction n using Nat.strongRecOn with
    | ind n ih =>
      intro before id after hlen hsplit
      refine hP id (hsplit ▸ List.mem_append_right _ List.mem_cons_self) fun s hs => ?_
      obtain ⟨before', between, rfl⟩ := List.append_of_mem (h before id after hsplit s hs)
      refine ih before'.length ?_ before' s (between ++ id :: after) rfl ?_
      · rw [← hlen, List.length_append, List.length_cons]
        omega
      · rw [hsplit, List.append_assoc, List.cons_append]
  intro id hid
  obtain ⟨before, after, hsplit⟩ := List.append_of_mem hid
  exact go before.length before id after rfl hsplit

/-- In an ordered list going back from node to source comes to an end. -/
private theorem Ordered.acc {g : Graph} {order : List NodeId} (h : g.Ordered order) :
    ∀ id ∈ order, Acc g.Feeds id :=
  h.induction fun id _ hsources => Acc.intro id hsources

/-! ## Stuck nodes -/

/-- The node takes its own result, if by detours. -/
def Cyclic (g : Graph) (id : NodeId) : Prop := TransGen g.Feeds id id

/-- The node takes nothing and is not an input. -/
def Ungrounded (g : Graph) (id : NodeId) : Prop :=
  id ∈ g.ids ∧ g.isInput id = false ∧ g.sourcesOf id = []

/-- The node can never be placed: it or something that it depends on is on a cycle or takes nothing
    without being an input. -/
def Stuck (g : Graph) (id : NodeId) : Prop :=
  ∃ u, ReflTransGen g.Feeds u id ∧ (g.Cyclic u ∨ g.Ungrounded u)

/-- A node behind which all chains of sources end is on no cycle. -/
theorem not_cyclic_of_acc {g : Graph} {id : NodeId} (h : Acc g.Feeds id) : ¬ g.Cyclic id := by
  have htrans : Acc (TransGen g.Feeds) id := h.transGen
  induction htrans with
  | intro x _ ih => exact fun hcycle => ih x hcycle (h.inv_of_transGen hcycle) hcycle

/-- There are finitely many nodes, so chains of sources end unless they run into a cycle. -/
theorem acc_of_not_cyclic {g : Graph} (hg : g.WellFormed) {id : NodeId} (hid : id ∈ g.ids)
    (h : ∀ u, ReflTransGen g.Feeds u id → ¬ g.Cyclic u) : Acc g.Feeds id := by
  -- Among what `id` depends on, coming before is transitive and, without cycles, irreflexive.
  let Ancestor := { u // u ∈ g.ids ∧ ReflTransGen g.Feeds u id }
  let Before (a b : Ancestor) : Prop := TransGen g.Feeds a.1 b.1
  have hfinite : Finite Ancestor :=
    (g.ids.finite_toSet.subset fun u hu => hu.1 : { u | u ∈ g.ids ∧ _ }.Finite)
  have htrans : IsTrans Ancestor Before := ⟨fun _ _ _ hab hbc => hab.trans hbc⟩
  have hirrefl : Std.Irrefl Before := ⟨fun a hcycle => h a.1 a.2.2 hcycle⟩
  have hwf : WellFounded Before := Finite.wellFounded_of_trans_of_irrefl Before
  suffices ∀ a : Ancestor, Acc g.Feeds a.1 from this ⟨id, hid, .refl⟩
  intro a
  induction a using hwf.induction with
  | h a ih =>
    refine Acc.intro a.1 fun s hs => ?_
    exact ih ⟨s, hg.sourcesDeclared a.1 s hs, .head hs a.2.2⟩ (.single hs)

/-! ## The finished walk -/

section Finished

variable {g : Graph} {w : Walk}

/-- Only what an input leads to is placed. -/
private theorem reachable_of_mem_placed (h : w.Inv g g.inputs) :
    ∀ id ∈ w.placed, g.Reachable id := by
  refine h.ordered.induction fun id hid hsources => ?_
  rcases h.grounded id hid with hinput | hne
  · exact reachable_of_isInput hinput
  · obtain ⟨s, hs⟩ := List.exists_mem_of_ne_nil _ hne
    exact (hsources s hs).tail hs

/-- What a placed node depends on has been placed. -/
theorem mem_placed_of_reflTransGen (h : w.Inv g g.inputs) {u id : NodeId}
    (hpath : ReflTransGen g.Feeds u id) (hid : id ∈ w.placed) : u ∈ w.placed := by
  induction hpath using ReflTransGen.head_induction_on with
  | refl => exact hid
  | head hedge _ ih => exact h.ordered.mem_of_feeds hedge ih

/-- At the end of the walk the declared nodes that have not been placed are the stuck ones. -/
theorem mem_placed_iff_not_stuck (hg : g.WellFormed) (h : w.Inv g g.inputs)
    (hframes : w.frames = []) {id : NodeId} (hid : id ∈ g.ids) :
    id ∈ w.placed ↔ ¬ g.Stuck id := by
  constructor
  · intro hplaced ⟨u, hpath, hstuck⟩
    have hu : u ∈ w.placed := mem_placed_of_reflTransGen h hpath hplaced
    -- Everything before a placed node is placed as well, so it is on no cycle.
    rcases hstuck with hcyclic | ⟨_, hinput, hsources⟩
    · exact not_cyclic_of_acc (h.ordered.acc u hu) hcyclic
    · -- Only inputs are placed without sources.
      rcases h.grounded u hu with hinput' | hsources'
      · rw [hinput] at hinput'
        cases hinput'
      · exact hsources' hsources
  · intro hstuck
    have hacc : Acc g.Feeds id :=
      acc_of_not_cyclic hg hid fun u hpath hcyclic => hstuck ⟨u, hpath, .inl hcyclic⟩
    -- Along the chains of sources, everything is an input or takes only what has been placed.
    induction hacc with
    | intro v _ ih =>
      rw [h.mem_placed_iff hg hframes]
      by_cases hinput : g.isInput v = true
      · exact .inl hinput
      · rw [Bool.not_eq_true] at hinput
        refine .inr ⟨fun hsources => ?_, fun s hs => ?_⟩
        · exact hstuck ⟨v, .refl, .inr ⟨hid, hinput, hsources⟩⟩
        · refine ih s hs (hg.sourcesDeclared v s hs) fun ⟨u, hpath, hu⟩ => ?_
          exact hstuck ⟨u, hpath.tail hs, hu⟩

/-- The walk has come to its end, and the search has found just what an input leads to. -/
structure Finished (g : Graph) (w : Walk) (reached : List NodeId) : Prop where
  inv : w.Inv g g.inputs
  frames : w.frames = []
  mem_reached : ∀ id, id ∈ reached ↔ g.Reachable id

namespace Finished

variable {reached : List NodeId}

/-- Stalled nodes are those that an input leads to and that have not been placed. -/
theorem mem_stalled (h : g.Finished w reached) {id : NodeId} :
    id ∈ g.stalled reached w.placed ↔ g.Reachable id ∧ id ∉ w.placed := by
  simp only [stalled, List.mem_filter, decide_eq_true_eq, h.mem_reached]
  exact ⟨fun h => h.2, fun h => ⟨h.1.mem_ids, h⟩⟩

open Classical in
/-- The nodes that the walk should have placed and has not are the stuck ones that an input leads
    to. -/
theorem stalled_eq_filter (hg : g.WellFormed) (h : g.Finished w reached) :
    g.stalled reached w.placed = g.ids.filter fun id => g.Reachable id ∧ g.Stuck id := by
  refine List.filter_congr fun id hid => ?_
  rw [decide_eq_decide, h.mem_reached, mem_placed_iff_not_stuck hg h.inv h.frames hid, not_not]

/-- The walk has stalled exactly if an input leads to a stuck node. -/
theorem stalled_eq_nil_iff (hg : g.WellFormed) (h : g.Finished w reached) :
    g.stalled reached w.placed = [] ↔ ¬ ∃ id, g.Reachable id ∧ g.Stuck id := by
  rw [h.stalled_eq_filter hg, List.filter_eq_nil_iff]
  simp only [decide_eq_true_eq, not_exists]
  exact ⟨fun h id hid => h id hid.1.mem_ids hid, fun h id _ => h id⟩

end Finished

end Finished

/-! ## The schedule and the walk -/

/-- The sources of some nodes that are not among those reached, each once. -/
def blockers (g : Graph) (reached nodes : List NodeId) : List NodeId :=
  ((nodes.flatMap g.sourcesOf).filter fun id => id ∉ reached).eraseDups

/-- Of declared nodes the sources can be looked up. -/
theorem blocking_eq_ok {g : Graph} (reached : List NodeId) {nodes : List NodeId}
    (h : ∀ id ∈ nodes, id ∈ g.ids) : g.blocking reached nodes = .ok (g.blockers reached nodes) := by
  -- No lookup fails, since all ids are declared.
  have hlookup : (nodes.mapM fun id => return (← g.node id).sources) =
      .ok (nodes.map g.sourcesOf) := by
    refine (Except.mapM_eq_ok_iff (P := (· ∈ g.ids)) fun id hid sources => ?_).mpr ⟨h, rfl⟩
    obtain ⟨n, hn⟩ := exists_node_iff.mpr (h id hid)
    rw [hn, Except.ok_bind, sourcesOf_of_get? (node_eq_ok_iff.mp hn)]
    constructor
    · intro heq
      exact ⟨h id hid, (Except.ok.inj heq).symm⟩
    · intro heq
      exact congrArg Except.ok heq.2.symm
  rw [blocking, hlookup, blockers, List.flatMap_def]
  rfl

/-- The schedule consists of what the walk has placed, unless the walk has stalled. -/
theorem schedule_of_walk {g : Graph} {w : Walk} {reached : List NodeId} (hinputs : g.inputs ≠ [])
    (hwalk : g.walk = .ok w) (hreached : g.reachable = .ok reached) :
    g.schedule.result =
      let stalled := g.stalled reached w.placed
      if stalled = [] then .ok (w.placed.filter fun id => !g.isOutput id)
      else .error (.cyclicGraph stalled (g.blockers reached stalled)) := by
  have hdeclared : ∀ id ∈ g.stalled reached w.placed, id ∈ g.ids := fun id hid =>
    (List.mem_filter.mp hid).1
  rw [schedule, if_neg (by simpa using hinputs), Traced.result_bind, Traced.result_liftM, hwalk,
    Except.ok_bind, Traced.result_bind, Traced.result_report, Except.ok_bind, Traced.result_bind,
    Traced.result_liftM, hreached, Except.ok_bind]
  simp only [List.isEmpty_iff]
  -- Only if something is stalled are its sources looked up.
  split
  · rfl
  · rw [Traced.result_bind, Traced.result_liftM, blocking_eq_ok reached hdeclared]
    rfl

/-- With inputs the walk comes to its end and the search finds what it is for, and the schedule is
    what follows from these. -/
theorem schedule_of_inputs {g : Graph} (hg : g.WellFormed) (hinputs : g.inputs ≠ []) :
    ∃ (w : Walk) (reached : List NodeId), g.Finished w reached ∧
      g.schedule.result =
        let stalled := g.stalled reached w.placed
        if stalled = [] then .ok (w.placed.filter fun id => !g.isOutput id)
        else .error (.cyclicGraph stalled (g.blockers reached stalled)) := by
  obtain ⟨w, hwalk, hinv, hframes⟩ := Walk.walk_finishes hg
  obtain ⟨reached, hreached, hmem⟩ := exists_reachable hg
  exact ⟨w, reached, ⟨hinv, hframes, hmem⟩, schedule_of_walk hinputs hwalk hreached⟩

/-- Without inputs there is no schedule. -/
theorem schedule_of_no_inputs {g : Graph} (hinputs : g.inputs = []) :
    g.schedule.result = .error .noInput := by
  rw [schedule, if_pos (by rw [hinputs]; rfl)]
  rfl

/-! ## What a schedule promises -/

section Scheduled

variable {g : Graph} {order : List NodeId}

/-- A schedule comes from a walk that has not stalled, so the walk has placed all that the inputs
    lead to. -/
theorem exists_walk_of_schedule (hg : g.WellFormed) (h : g.schedule.result = .ok order) :
    ∃ w : Walk, w.Inv g g.inputs ∧ (∀ id, g.Reachable id → id ∈ w.placed) ∧
      order = w.placed.filter fun id => !g.isOutput id := by
  have hinputs : g.inputs ≠ [] := mt schedule_of_no_inputs (by simp [h])
  obtain ⟨w, reached, hfinished, hresult⟩ := schedule_of_inputs hg hinputs
  rw [hresult] at h
  dsimp only at h
  split at h
  · next hstalled =>
    cases h
    refine ⟨w, hfinished.inv, fun id hreach => ?_, rfl⟩
    -- What is left behind although an input leads to it would be stalled.
    by_contra hplaced
    have hmem := hfinished.mem_stalled.mpr ⟨hreach, hplaced⟩
    rw [hstalled] at hmem
    cases hmem
  · cases h

/-- No node is scheduled twice. -/
theorem nodup_of_schedule (hg : g.WellFormed) (h : g.schedule.result = .ok order) :
    order.Nodup := by
  obtain ⟨w, hinv, _, rfl⟩ := exists_walk_of_schedule hg h
  exact hinv.placedNodup.filter _

/-- The schedule holds what the inputs lead to, apart from outputs. -/
theorem mem_schedule_iff (hg : g.WellFormed) (h : g.schedule.result = .ok order) (id : NodeId) :
    id ∈ order ↔ g.Reachable id ∧ g.isOutput id = false := by
  obtain ⟨w, hinv, hplaced, rfl⟩ := exists_walk_of_schedule hg h
  rw [List.mem_filter, Bool.not_eq_true']
  exact and_congr_left fun _ => ⟨reachable_of_mem_placed hinv id, hplaced id⟩

/-- Every node is scheduled after its sources. -/
theorem ordered_of_schedule (hg : g.WellFormed) (h : g.schedule.result = .ok order) :
    g.Ordered order := by
  obtain ⟨w, hinv, _, rfl⟩ := exists_walk_of_schedule hg h
  -- Outputs are left out, and no output is a source.
  refine hinv.ordered.filter fun id s hs => ?_
  rw [hg.outputNoSource id s hs]
  rfl

/-- The inputs are scheduled in their order. -/
theorem filter_isInput_of_schedule (hg : g.WellFormed) (h : g.schedule.result = .ok order) :
    order.filter g.isInput = g.inputs := by
  obtain ⟨w, hinv, _, rfl⟩ := exists_walk_of_schedule hg h
  rw [← hinv.inputsPlaced, List.filter_filter]
  refine List.filter_congr fun id _ => ?_
  cases hinput : g.isInput id with
  | false => rfl
  | true => rw [isOutput_of_isInput hinput]; rfl

end Scheduled

/-- A schedule holds every node once that an input leads to and that is not an output, no node
    before one of its sources, and the inputs in their order. -/
theorem schedule_sound {g : Graph} (hg : g.Built) {order : List NodeId}
    (h : g.schedule.result = .ok order) :
    order.Nodup ∧
    (∀ id, id ∈ order ↔ g.Reachable id ∧ g.isOutput id = false) ∧
    g.Ordered order ∧
    order.filter g.isInput = g.inputs :=
  ⟨nodup_of_schedule hg.wellFormed h, mem_schedule_iff hg.wellFormed h,
    ordered_of_schedule hg.wellFormed h, filter_isInput_of_schedule hg.wellFormed h⟩

/-- Two inputs, a layer that takes one of them twice, and a layer that no input leads to. -/
def crossing : Graph where
  nodes := ⟨[
    (⟨"a"⟩, ⟨"Input", ∅, [], [⟨"x"⟩, ⟨"x"⟩]⟩),
    (⟨"y"⟩, ⟨"Output", ∅, [⟨"x"⟩, ⟨"b"⟩], []⟩),
    (⟨"x"⟩, ⟨"Add", ∅, [⟨"a"⟩, ⟨"b"⟩, ⟨"a"⟩], [⟨"y"⟩]⟩),
    (⟨"b"⟩, ⟨"Input", ∅, [], [⟨"y"⟩, ⟨"x"⟩]⟩),
    (⟨"z"⟩, ⟨"Dense", ∅, [⟨"z"⟩], [⟨"z"⟩]⟩)], by decide⟩
  inputs := [⟨"a"⟩, ⟨"b"⟩]
  outputs := [⟨"y"⟩]

theorem crossing_built : crossing.Built := .descriptions [
  ⟨⟨"a"⟩, "Input", ∅, [], none⟩,
  ⟨⟨"y"⟩, "Output", ∅, [⟨"x"⟩, ⟨"b"⟩], none⟩,
  ⟨⟨"x"⟩, "Add", ∅, [⟨"a"⟩, ⟨"b"⟩, ⟨"a"⟩], none⟩,
  ⟨⟨"b"⟩, "Input", ∅, [], none⟩,
  ⟨⟨"z"⟩, "Dense", ∅, [⟨"z"⟩], none⟩] rfl

theorem schedule_sound_crossing :
    crossing.Built ∧ crossing.schedule.result = .ok [⟨"a"⟩, ⟨"b"⟩, ⟨"x"⟩] ∧
      crossing.Ordered [⟨"a"⟩, ⟨"b"⟩, ⟨"x"⟩] := by
  have hresult : crossing.schedule.result = .ok [⟨"a"⟩, ⟨"b"⟩, ⟨"x"⟩] := by cbv
  exact ⟨crossing_built, hresult, (schedule_sound crossing_built hresult).2.2.1⟩

/-! ## When there is a schedule -/

/-- A graph lists its inputs, so it has one if the list is not empty. -/
theorem exists_isInput_iff {g : Graph} (hg : g.WellFormed) :
    (∃ id, g.isInput id = true) ↔ g.inputs ≠ [] := by
  constructor
  · intro ⟨id, hid⟩
    exact List.ne_nil_of_mem ((hg.memInputs id).mpr hid)
  · intro hne
    obtain ⟨id, hid⟩ := List.exists_mem_of_ne_nil _ hne
    exact ⟨id, (hg.memInputs id).mp hid⟩

/-- Without inputs there is no schedule.  With inputs there is one, unless they lead to a stuck
    node. -/
theorem schedule_cases {g : Graph} (hg : g.WellFormed) :
    (g.inputs = [] ∧ g.schedule.result = .error .noInput) ∨
    (g.inputs ≠ [] ∧ (∃ id, g.Reachable id ∧ g.Stuck id) ∧
      ∃ nodes blockedBy, g.schedule.result = .error (.cyclicGraph nodes blockedBy)) ∨
    (g.inputs ≠ [] ∧ (¬ ∃ id, g.Reachable id ∧ g.Stuck id) ∧
      ∃ order, g.schedule.result = .ok order) := by
  by_cases hinputs : g.inputs = []
  · exact .inl ⟨hinputs, schedule_of_no_inputs hinputs⟩
  obtain ⟨w, reached, hfinished, hresult⟩ := schedule_of_inputs hg hinputs
  rw [hresult]
  dsimp only
  -- The walk is finished, and what is stalled is what is stuck and reachable.
  by_cases hstalled : g.stalled reached w.placed = []
  · rw [if_pos hstalled]
    exact .inr (.inr ⟨hinputs, (hfinished.stalled_eq_nil_iff hg).mp hstalled, _, rfl⟩)
  · rw [if_neg hstalled]
    rw [hfinished.stalled_eq_nil_iff hg, not_not] at hstalled
    exact .inr (.inl ⟨hinputs, hstalled, _, _, rfl⟩)

open Classical in
/-- Without inputs there is no schedule.  With inputs there is one, unless they lead to stuck nodes;
    then the error lists these in the order of declaration. -/
theorem schedule_outcome {g : Graph} (hg : g.Built) :
    (g.schedule.result = .error .noInput ↔ ¬ ∃ id, g.isInput id = true) ∧
    ((∃ id, g.isInput id = true) →
      ((∃ nodes blockedBy, g.schedule.result = .error (.cyclicGraph nodes blockedBy)) ↔
        ∃ id, g.Reachable id ∧ g.Stuck id) ∧
      (∀ nodes blockedBy, g.schedule.result = .error (.cyclicGraph nodes blockedBy) →
        nodes = g.ids.filter fun id => g.Reachable id ∧ g.Stuck id) ∧
      ((∃ order, g.schedule.result = .ok order) ↔ ¬ ∃ id, g.Reachable id ∧ g.Stuck id)) ∧
    ∀ e, g.schedule.result = .error e →
      e = .noInput ∨ ∃ nodes blockedBy, e = .cyclicGraph nodes blockedBy := by
  have hwf := hg.wellFormed
  rw [exists_isInput_iff hwf]
  by_cases hinputs : g.inputs = []
  · rw [schedule_of_no_inputs hinputs]
    refine ⟨?_, fun hne => absurd hinputs hne, fun e he => ?_⟩
    · simp [hinputs]
    · cases he
      exact .inl rfl
  · obtain ⟨w, reached, hfinished, hresult⟩ := schedule_of_inputs hwf hinputs
    -- The walk has stalled exactly if the error has something to list.
    have hnil := hfinished.stalled_eq_nil_iff hwf
    rw [hresult]
    dsimp only
    split
    · next hempty =>
      rw [hnil] at hempty
      simp [hempty, hinputs]
    · next hne =>
      rw [hnil, not_not] at hne
      simp [hne, hinputs, hfinished.stalled_eq_filter hwf]

/-- The graph of `loopDescriptions`. -/
def loop : Graph where
  nodes := ⟨[
    (⟨"x"⟩, ⟨"Add", ∅, [⟨"a"⟩, ⟨"x"⟩, ⟨"a"⟩], [⟨"x"⟩, ⟨"y"⟩]⟩),
    (⟨"a"⟩, ⟨"Input", ∅, [], [⟨"x"⟩, ⟨"x"⟩]⟩),
    (⟨"y"⟩, ⟨"Output", ∅, [⟨"x"⟩], []⟩)], by decide⟩
  inputs := [⟨"a"⟩]
  outputs := [⟨"y"⟩]

theorem loop_built : loop.Built := by
  refine .descriptions loopDescriptions ?_
  rw [ofDescriptions, build_result]
  rfl

/-- A layer that takes its own result is stuck. -/
theorem schedule_outcome_loop :
    loop.Built ∧ loop.schedule.result = .error (.cyclicGraph [⟨"x"⟩, ⟨"y"⟩] []) ∧
      ∃ id, loop.Reachable id ∧ loop.Stuck id := by
  have hresult : loop.schedule.result = .error (.cyclicGraph [⟨"x"⟩, ⟨"y"⟩] []) := by cbv
  have houtcome := (schedule_outcome loop_built).2.1 ⟨⟨"a"⟩, rfl⟩
  exact ⟨loop_built, hresult, houtcome.1.mp ⟨_, _, hresult⟩⟩

end LayerGraph.Graph
