import LayerGraph.Proofs.Scope

/-! # What comes of compiling a graph

Compiling to a functional program fails for one of four reasons, and these come in a fixed order: no
input, an input that leads to a stuck node, no output, and an output that no input leads to.

The program checks an output by looking for its sources among the statements.  In a schedule these
are either all there or all missing (`sources_scheduled_iff`): once nothing that an input leads to
is stuck, one source that has been scheduled means that the output was reached, and it is only
reached after its last source.

## Key results

- `sources_scheduled_iff`: when the sources of an output have been scheduled
- `outputsFault?_of_schedule`: what is wrong with the outputs of a graph that has a schedule
- `compile_functional_of_schedule`: only the outputs can be wrong
- `compile_functional_outcome`: which graphs are compiled, and the error of every other one -/

namespace LayerGraph.Graph

variable {g : Graph} {o : Options} {order : List NodeId}

/-! ## Outputs of the model -/

/-- The sources of an output have been scheduled exactly if an input leads to the output. -/
theorem sources_scheduled_iff (hg : g.WellFormed) (h : g.schedule.result = .ok order)
    {output : NodeId} (hout : output ∈ g.outputs) :
    (g.sourcesOf output ≠ [] ∧ ∀ s ∈ g.sourcesOf output, s ∈ order) ↔ g.Reachable output := by
  constructor
  · intro ⟨hne, hall⟩
    obtain ⟨s, hs⟩ := List.exists_mem_of_ne_nil _ hne
    exact ((mem_schedule_iff hg h s).mp (hall s hs)).1.tail hs
  · intro hreach
    obtain ⟨w, hinv, hplaced, rfl⟩ := exists_walk_of_schedule hg h
    -- An output is not an input, so it is reached through a source.
    have hinput : ¬ g.isInput output = true := fun hinput => by
      have hisOutput := (hg.memOutputs output).mp hout
      rw [isOutput_of_isInput hinput] at hisOutput
      cases hisOutput
    obtain ⟨source, _, hsource⟩ := hreach.cases.resolve_left hinput
    refine ⟨List.ne_nil_of_mem hsource, fun s hs => List.mem_filter.mpr ⟨?_, ?_⟩⟩
    · -- The walk has placed the output and, before it, all its sources.
      exact mem_placed_of_reflTransGen hinv (.single hs) (hplaced output hreach)
    · rw [hg.outputNoSource output s hs]
      rfl

/-- What is wrong with an output that no input leads to. -/
def disconnection (g : Graph) (output : NodeId) : GraphFault :=
  match g.sourcesOf output with
  | [] => .outputWithoutSources
  | source :: _ => .unconnectedSource source

open Classical in
/-- An output is fit for a program if an input leads to it. -/
private theorem outputFault?_of_schedule (hg : g.WellFormed) (h : g.schedule.result = .ok order)
    {output : NodeId} (hout : output ∈ g.outputs) :
    g.outputFault? order output =
      if g.Reachable output then none else some (g.disconnection output) := by
  by_cases hreach : g.Reachable output
  · rw [if_pos hreach, outputFault?_eq_none_iff]
    exact (sources_scheduled_iff hg h hout).mpr hreach
  · rw [if_neg hreach, outputFault?, disconnection]
    cases hsources : g.sourcesOf output with
    | nil => rfl
    | cons source rest =>
      -- Already the first source is missing: an input that led to it would lead to the output.
      have hsource : source ∉ order := by
        intro hmem
        have hfeeds : g.Feeds source output := by
          rw [Feeds, hsources]
          exact List.mem_cons_self
        exact hreach (((mem_schedule_iff hg h source).mp hmem).1.tail hfeeds)
      simp [hsource]

open Classical in
/-- The first output that no input leads to is what is wrong with the outputs. -/
theorem outputsFault?_of_schedule (hg : g.WellFormed) (h : g.schedule.result = .ok order)
    (houts : g.outputs ≠ []) :
    g.outputsFault? order = (g.outputs.find? fun output => ¬ g.Reachable output).map
      fun output => .malformedGraph output (g.disconnection output) := by
  rw [outputsFault?, if_neg houts, List.find?_eq_findSome?_guard, List.map_findSome?]
  refine List.findSome?_congr fun output hout => ?_
  rw [outputFault?_of_schedule hg h hout]
  by_cases hreach : g.Reachable output
  · simp [hreach]
  · simp [hreach]

/-! ## The program -/

/-- Statements and inputs are never a problem for a schedule; only outputs can be. -/
theorem modelFault?_of_schedule (hg : g.WellFormed) (h : g.schedule.result = .ok order) :
    g.modelFault? order = g.outputsFault? order := by
  have hinputs : g.inputs ≠ [] := mt schedule_of_no_inputs (by simp [h])
  rw [modelFault?, if_neg hinputs,
    (g.findSome?_undeclared?_eq_none_iff order).mpr (mem_ids_of_mem_schedule hg h)]
  rfl

/-- Once there is a schedule only the outputs can stand in the way of a program. -/
theorem compile_functional_of_schedule (hg : g.WellFormed) (h : g.schedule.result = .ok order)
    (hstyle : o.style = .functional) :
    (g.compile o).result =
      .unlessFault (g.outputsFault? order) (o.target.programText o (g.modelOf order)) := by
  rw [compile_result, h, Except.ok_bind, generate_functional g hstyle, functional_result hg,
    modelFault?_of_schedule hg h]

/-- A graph lists its outputs, so it has one if the list is not empty. -/
private theorem exists_isOutput_iff (hg : g.WellFormed) :
    (∃ id, g.isOutput id = true) ↔ g.outputs ≠ [] := by
  constructor
  · intro ⟨id, hid⟩
    exact List.ne_nil_of_mem ((hg.memOutputs id).mpr hid)
  · intro hne
    obtain ⟨id, hid⟩ := List.exists_mem_of_ne_nil _ hne
    exact ⟨id, (hg.memOutputs id).mp hid⟩

open Classical in
/-- A graph is compiled to a functional program unless it has no input, an input leads to a stuck
    node, it has no output, or no input leads to one of its outputs.  The first of these reasons
    decides the error, and among several outputs the first one in the order of the outputs. -/
theorem compile_functional_outcome (hg : g.Built) (hstyle : o.style = .functional) :
    if ¬ ∃ id, g.isInput id = true then (g.compile o).result = .error .noInput
    else if ∃ id, g.Reachable id ∧ g.Stuck id then
      ∃ nodes blockedBy, g.schedule.result = .error (.cyclicGraph nodes blockedBy) ∧
        (g.compile o).result = .error (.cyclicGraph nodes blockedBy)
    else if ¬ ∃ id, g.isOutput id = true then (g.compile o).result = .error .noOutput
    else
      match g.outputs.find? fun output => ¬ g.Reachable output with
      | some output =>
        (g.compile o).result = .error (.malformedGraph output (g.disconnection output))
      | none => ∃ code, (g.compile o).result = .ok code := by
  have hwf := hg.wellFormed
  have hinput := exists_isInput_iff hwf
  have houtput := exists_isOutput_iff hwf
  rcases schedule_cases hwf with ⟨hinputs, hschedule⟩ |
    ⟨hinputs, hstuck, nodes, blockedBy, hschedule⟩ | ⟨hinputs, hstuck, order, hschedule⟩
  · rw [if_pos fun hex => hinput.mp hex hinputs, compile_result, hschedule]
    rfl
  · rw [if_neg (not_not_intro (hinput.mpr hinputs)), if_pos hstuck, compile_result, hschedule]
    exact ⟨nodes, blockedBy, rfl, rfl⟩
  -- There is a schedule, and the outputs are looked at.
  rw [if_neg (not_not_intro (hinput.mpr hinputs)), if_neg hstuck,
    compile_functional_of_schedule hwf hschedule hstyle]
  by_cases houts : g.outputs = []
  · rw [if_pos fun hex => houtput.mp hex houts, outputsFault?, if_pos houts]
    rfl
  rw [if_neg (not_not_intro (houtput.mpr houts)), outputsFault?_of_schedule hwf hschedule houts]
  cases g.outputs.find? fun output => ¬ g.Reachable output with
  | none => exact ⟨_, rfl⟩
  | some output => rfl

/-- Two outputs; no input leads to the source of the second one. -/
def detached : Graph where
  nodes := ⟨[
    (⟨"a"⟩, ⟨"Input", ∅, [], [⟨"x"⟩]⟩),
    (⟨"x"⟩, ⟨"Dense", ∅, [⟨"a"⟩], [⟨"y"⟩]⟩),
    (⟨"y"⟩, ⟨"Output", ∅, [⟨"x"⟩], []⟩),
    (⟨"w"⟩, ⟨"Dense", ∅, [], [⟨"z"⟩]⟩),
    (⟨"z"⟩, ⟨"Output", ∅, [⟨"w"⟩], []⟩)], by decide⟩
  inputs := [⟨"a"⟩]
  outputs := [⟨"y"⟩, ⟨"z"⟩]

/-- The error names the output and the source that nothing leads to. -/
theorem compile_functional_outcome_detached :
    detached.Built ∧ (detached.compile { target := .tensorFlowJs }).result =
      .error (.malformedGraph ⟨"z"⟩ (.unconnectedSource ⟨"w"⟩)) := by
  have hbuilt : detached.Built := .descriptions [
    ⟨⟨"a"⟩, "Input", ∅, [], none⟩,
    ⟨⟨"x"⟩, "Dense", ∅, [⟨"a"⟩], none⟩,
    ⟨⟨"y"⟩, "Output", ∅, [⟨"x"⟩], none⟩,
    ⟨⟨"w"⟩, "Dense", ∅, [], none⟩,
    ⟨⟨"z"⟩, "Output", ∅, [⟨"w"⟩], none⟩] rfl
  have hschedule : detached.schedule.result = .ok [⟨"a"⟩, ⟨"x"⟩] := by cbv
  have hreach : ∀ id, detached.Reachable id ↔ id ∈ [⟨"a"⟩, ⟨"x"⟩, ⟨"y"⟩] := fun id => by
    obtain ⟨reached, hreached, hmem⟩ := exists_reachable hbuilt.wellFormed
    rw [show detached.reachable = .ok [⟨"a"⟩, ⟨"x"⟩, ⟨"y"⟩] by cbv] at hreached
    cases hreached
    exact (hmem id).symm
  -- A schedule shows that nothing is stuck.
  have hstuck : ¬ ∃ id, detached.Reachable id ∧ detached.Stuck id := by
    rcases schedule_cases hbuilt.wellFormed with ⟨_, h⟩ | ⟨_, _, _, _, h⟩ | ⟨_, h, _⟩
    · rw [hschedule] at h
      cases h
    · rw [hschedule] at h
      cases h
    · exact h
  classical
  have houtcome := @compile_functional_outcome detached { target := .tensorFlowJs } hbuilt rfl
  rw [if_neg (not_not_intro ⟨⟨"a"⟩, rfl⟩), if_neg hstuck,
    if_neg (not_not_intro ⟨⟨"y"⟩, rfl⟩)] at houtcome
  have hfind : (detached.outputs.find? fun output => ¬ detached.Reachable output) =
      some ⟨"z"⟩ := by
    simp [show detached.outputs = [⟨"y"⟩, ⟨"z"⟩] from rfl, hreach]
  rw [hfind] at houtcome
  exact ⟨hbuilt, houtcome⟩

end LayerGraph.Graph
