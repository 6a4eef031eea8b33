import LayerGraph.Proofs.Chain
import LayerGraph.Proofs.Leaves
import LayerGraph.Proofs.Skeleton

/-! # What the list of outputs decides

A request may list its outputs.  The graph then has them in another order, and nothing else about
the graph changes.  The order matters only to the last argument of a functional program: the
program checks one output after the other and stops at the first that is not connected, but whether
there is such an output does not depend on their order.

## Key results

- `sameButOutputs_of_ofRequest`: the graphs of two requests that list other outputs
- `SameButOutputs.modelFault?_eq_none_iff`: both graphs have a program or neither has
- `compile_outputs_frame`: the programs -/

namespace LayerGraph.Graph

/-- The graphs have the same nodes and inputs, and list the same outputs in whatever order. -/
structure SameButOutputs (g g' : Graph) : Prop where
  nodes : g.nodes = g'.nodes
  inputs : g.inputs = g'.inputs
  outputs : g.outputs.Perm g'.outputs

/-- Requests that list other outputs have graphs that differ in the order of their outputs. -/
theorem sameButOutputs_of_ofRequest {r r' : Request} (hlayers : r.layers = r'.layers)
    (hinputs : r.inputs = r'.inputs) {g g' : Graph} (hg : (ofRequest r).result = .ok g)
    (hg' : (ofRequest r').result = .ok g') : g.SameButOutputs g' := by
  have hwf := (Built.request r hg).wellFormed
  have hwf' := (Built.request r' hg').wellFormed
  obtain ⟨ds, hds, hbuild⟩ := (ofRequest_eq_ok_iff r g).mp hg
  obtain ⟨ds', hds', hbuild'⟩ := (ofRequest_eq_ok_iff r' g').mp hg'
  -- Both requests describe the same nodes, since descriptions come from the layers.
  have hsame : ds = ds' := by
    rw [Request.descriptions, hlayers] at hds
    exact Except.ok.inj (hds.symm.trans hds')
  subst hsame
  obtain ⟨_, hnodes, hins, _⟩ := (build_eq_ok_iff ds r.inputs r.outputs g).mp hbuild
  obtain ⟨_, hnodes', hins', _⟩ := (build_eq_ok_iff ds r'.inputs r'.outputs g').mp hbuild'
  have hnodesEq : g.nodes = g'.nodes := hnodes.trans hnodes'.symm
  refine ⟨hnodesEq, ?_, ?_⟩
  · rw [hnodesEq, hinputs] at hins
    exact Except.ok.inj (hins.symm.trans hins')
  · -- The outputs are the nodes of this role, whatever their order.
    rw [List.perm_ext_iff_of_nodup hwf.outputsNodup hwf'.outputsNodup]
    intro id
    rw [hwf.memOutputs, hwf'.memOutputs, isOutput, isOutput, get?, get?, hnodesEq]

namespace SameButOutputs

variable {g g' : Graph}

theorem get?_eq (h : g.SameButOutputs g') : g.get? = g'.get? := by
  funext id
  rw [get?, get?, h.nodes]

/-- Such graphs have the same sources, … -/
theorem sourcesOf_eq (h : g.SameButOutputs g') : g.sourcesOf = g'.sourcesOf := by
  funext id
  rw [sourcesOf, sourcesOf, h.get?_eq]

/-- … the same roles, … -/
theorem isOutput_eq (h : g.SameButOutputs g') : g.isOutput = g'.isOutput := by
  funext id
  rw [isOutput, isOutput, h.get?_eq]

/-- … the same names … -/
private theorem nameOf_eq (h : g.SameButOutputs g') : g.nameOf = g'.nameOf := by
  funext id
  rw [nameOf, nameOf, isInput, isInput, hasRole, hasRole, h.get?_eq, h.isOutput_eq]

/-- … and the same statements. -/
theorem bindingOf_eq (h : g.SameButOutputs g') : g.bindingOf = g'.bindingOf := by
  funext id
  rw [bindingOf, bindingOf, kindOf, kindOf, parametersOf, parametersOf, h.get?_eq, h.sourcesOf_eq,
    h.nameOf_eq]

/-- The order of the outputs does not matter to the schedule. -/
theorem schedule_eq (h : g.SameButOutputs g') : g.schedule = g'.schedule := by
  have hskeleton : g.SameSkeleton g' := ⟨by rw [h.nodes], h.inputs⟩
  exact hskeleton.schedule_eq

/-- Whether an output is disconnected does not depend on the order in which they are checked. -/
theorem modelFault?_eq_none_iff (h : g.SameButOutputs g') (order : List NodeId) :
    g.modelFault? order = none ↔ g'.modelFault? order = none := by
  have hids : g.ids = g'.ids := congrArg OrderedMap.keys h.nodes
  have hnil : g.outputs = [] ↔ g'.outputs = [] := by
    rw [← List.length_eq_zero_iff, h.outputs.length_eq, List.length_eq_zero_iff]
  simp only [Graph.modelFault?_eq_none_iff, ne_eq, hids, hnil, h.inputs, h.sourcesOf_eq,
    h.outputs.mem_iff]

/-- The programs have the same statements. -/
private theorem modelOf_bindings_eq (h : g.SameButOutputs g') (order : List NodeId) :
    (g.modelOf order).bindings = (g'.modelOf order).bindings := by
  rw [modelOf, modelOf, h.isOutput_eq, h.bindingOf_eq]

/-- The model returns the sources of one output after the other, in the order of the outputs. -/
theorem outputs_perm (h : g.SameButOutputs g') (order : List NodeId) :
    (g.modelOf order).outputs.Perm (g'.modelOf order).outputs := by
  rw [modelOf, modelOf, h.sourcesOf_eq, h.nameOf_eq]
  exact h.outputs.flatMap_right _

end SameButOutputs

/-- Two requests that differ only in the list of outputs are both compiled to a functional program
    or neither is.  The programs have the same header, the same statements of the nodes in the same
    order and a model with the same inputs, those of the graphs.  Both return the sources of the
    outputs, those of one output together and in their order, one output after the other in the
    order that its own graph has. -/
theorem compile_outputs_frame {r r' : Request} (hlayers : r.layers = r'.layers)
    (hinputs : r.inputs = r'.inputs) {g g' : Graph} (hg : (ofRequest r).result = .ok g)
    (hg' : (ofRequest r').result = .ok g') {o : Options} (hstyle : o.style = .functional) :
    ((∃ code, (r.compile o).result = .ok code) ↔ ∃ code, (r'.compile o).result = .ok code) ∧
    ∀ code code', (r.compile o).result = .ok code → (r'.compile o).result = .ok code' →
      ∃ order statements inputs outputs outputs',
        g.schedule.result = .ok order ∧ g'.schedule.result = .ok order ∧
        order.mapM (g.statement o.target) = .ok statements ∧
        order.mapM (g'.statement o.target) = .ok statements ∧
        statements = (order.map g.bindingOf).map o.target.bindingText ∧
        code = o.target.functionText o (statements ++ [o.target.modelText inputs outputs]) ∧
        code' = o.target.functionText o (statements ++ [o.target.modelText inputs outputs']) ∧
        inputs = g.inputs.map g.nameOf ∧ inputs = g'.inputs.map g'.nameOf ∧
        outputs.Perm outputs' ∧
        outputs = g.outputs.flatMap (fun output => (g.sourcesOf output).map g.nameOf) ∧
        outputs' = g'.outputs.flatMap fun output => (g'.sourcesOf output).map g'.nameOf := by
  have hwf := (Built.request r hg).wellFormed
  have hwf' := (Built.request r' hg').wellFormed
  have hsame := sameButOutputs_of_ofRequest hlayers hinputs hg hg'
  have hcompile : (r.compile o).result = (g.compile o).result := by
    rw [Request.compile_result, hg]
    rfl
  have hcompile' : (r'.compile o).result = (g'.compile o).result := by
    rw [Request.compile_result, hg']
    rfl
  -- Both programs are those of one schedule, with the models of the two graphs.
  simp only [hcompile, hcompile', compile_functional_eq_ok_iff hwf hstyle,
    compile_functional_eq_ok_iff hwf' hstyle, ← hsame.schedule_eq]
  constructor
  · constructor
    · rintro ⟨_, order, horder, hfault, _⟩
      exact ⟨_, order, horder, (hsame.modelFault?_eq_none_iff order).mp hfault, rfl⟩
    · rintro ⟨_, order, horder, hfault, _⟩
      exact ⟨_, order, horder, (hsame.modelFault?_eq_none_iff order).mpr hfault, rfl⟩
  · rintro code code' ⟨order, horder, _, rfl⟩ ⟨order', horder', _, rfl⟩
    have horderEq : order = order' := Except.ok.inj (horder.symm.trans horder')
    subst horderEq
    have hschedule' : g'.schedule.result = .ok order := by rw [← hsame.schedule_eq, horder]
    have hstatements' := mapM_statement hwf' hschedule' o.target
    rw [← hsame.bindingOf_eq] at hstatements'
    have hins : g.inputs.map g.nameOf = g'.inputs.map g'.nameOf := by
      rw [hsame.inputs, hsame.nameOf_eq]
    -- The statements and the inputs agree, and the outputs are permuted.
    refine ⟨order, _, _, _, _, horder, horder, mapM_statement hwf horder o.target, hstatements',
      rfl, ?_, ?_, rfl, hins, hsame.outputs_perm order, rfl, rfl⟩
    · rw [Target.programText, modelOf_bindings_of_schedule hwf horder]
      rfl
    · rw [Target.programText, ← hsame.modelOf_bindings_eq, modelOf_bindings_of_schedule hwf horder,
        hins]
      rfl

/-- One input with two layers and an output for each of them. -/
def forkRequest (outputs : Option (List NodeId)) : Request where
  layers := [
    ⟨⟨"i"⟩, some ⟨"Input", ∅⟩, [], [⟨"a"⟩, ⟨"b"⟩], none⟩,
    ⟨⟨"a"⟩, some ⟨"Dense", ∅⟩, [⟨"i"⟩], [⟨"first"⟩], none⟩,
    ⟨⟨"b"⟩, some ⟨"Dense", ∅⟩, [⟨"i"⟩], [⟨"second"⟩, ⟨"second"⟩], none⟩,
    ⟨⟨"second"⟩, some ⟨"Output", ∅⟩, [⟨"b"⟩, ⟨"b"⟩], [], none⟩,
    ⟨⟨"first"⟩, some ⟨"Output", ∅⟩, [⟨"a"⟩], [], none⟩]
  inputs := none
  outputs := outputs

/-- The graph of the request, with its outputs in the given order. -/
def forkGraph (outputs : List NodeId) : Graph where
  nodes := ⟨[
    (⟨"i"⟩, ⟨"Input", ∅, [], [⟨"a"⟩, ⟨"b"⟩]⟩),
    (⟨"a"⟩, ⟨"Dense", ∅, [⟨"i"⟩], [⟨"first"⟩]⟩),
    (⟨"b"⟩, ⟨"Dense", ∅, [⟨"i"⟩], [⟨"second"⟩, ⟨"second"⟩]⟩),
    (⟨"second"⟩, ⟨"Output", ∅, [⟨"b"⟩, ⟨"b"⟩], []⟩),
    (⟨"first"⟩, ⟨"Output", ∅, [⟨"a"⟩], []⟩)], by decide⟩
  inputs := [⟨"i"⟩]
  outputs := outputs

/-- The program of the request, with what its model returns. -/
def forkText (outputs : String) : String := Text.ofLines [
  "import keras",
  "",
  "def build_model():",
  "    input_i = keras.layers.Input()",
  "    layer_a = keras.layers.Dense()(input_i)",
  "    layer_b = keras.layers.Dense()(input_i)",
  "    model = keras.models.Model(inputs=input_i, outputs=" ++ outputs ++ ")",
  "    return model"]

/-- Without a list the outputs are in the order of declaration; a list that names one of them twice
    puts the other one last. -/
theorem compile_outputs_frame_fork :
    (ofRequest (forkRequest none)).result = .ok (forkGraph [⟨"second"⟩, ⟨"first"⟩]) ∧
    (ofRequest (forkRequest (some [⟨"first"⟩, ⟨"first"⟩]))).result =
      .ok (forkGraph [⟨"first"⟩, ⟨"second"⟩]) ∧
    ∃ code code',
      ((forkRequest none).compile).result = .ok code ∧
      ((forkRequest (some [⟨"first"⟩, ⟨"first"⟩])).compile).result = .ok code' ∧
      code = forkText "[layer_b, layer_b, layer_a]" ∧
      code' = forkText "[layer_a, layer_b, layer_b]" := by
  have hg : (ofRequest (forkRequest none)).result =
      .ok (forkGraph [⟨"second"⟩, ⟨"first"⟩]) := by
    rw [ofRequest, Traced.result_bind]
    simp only [build_result]
    rfl
  have hg' : (ofRequest (forkRequest (some [⟨"first"⟩, ⟨"first"⟩]))).result =
      .ok (forkGraph [⟨"first"⟩, ⟨"second"⟩]) := by
    rw [ofRequest, Traced.result_bind]
    simp only [build_result]
    rfl
  have hschedule : (forkGraph [⟨"second"⟩, ⟨"first"⟩]).schedule.result =
      .ok [⟨"i"⟩, ⟨"a"⟩, ⟨"b"⟩] := by cbv
  have hframe := @compile_outputs_frame (forkRequest none)
    (forkRequest (some [⟨"first"⟩, ⟨"first"⟩])) rfl rfl _ _ hg hg' { } rfl
  obtain ⟨code, hcode⟩ : ∃ code, ((forkRequest none).compile).result = .ok code := by
    rw [Request.compile_result, hg]
    show ∃ code, ((forkGraph [⟨"second"⟩, ⟨"first"⟩]).compile).result = .ok code
    rw [compile_result, hschedule]
    exact ⟨_, rfl⟩
  obtain ⟨code', hcode'⟩ := hframe.1.mp ⟨code, hcode⟩
  obtain ⟨order, _, _, _, _, horder, _, _, _, rfl, hprogram, hprogram', rfl, _, _, rfl, rfl⟩ :=
    hframe.2 code code' hcode hcode'
  rw [hschedule] at horder
  cases horder
  exact ⟨hg, hg', code, code', hcode, hcode', hprogram.trans (by decide +kernel),
    hprogram'.trans (by decide +kernel)⟩

end LayerGraph.Graph
