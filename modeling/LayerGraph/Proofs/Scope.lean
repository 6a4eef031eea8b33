import LayerGraph.Compile
import LayerGraph.Proofs.Emission
import LayerGraph.Proofs.Schedule

/-! # Generated programs are well-scoped

A functional program binds every name once, uses names only after they have been bound, and does not
bind the name of the model itself.  The order of the statements is that of the schedule, so this
comes down to three things: names tell nodes apart, sources come first in a schedule, and the model
takes and returns only what has been scheduled.

## Key results

- `nameOf_injective`: no two nodes have the same name
- `compile_functional_eq_ok_iff`: compiling is scheduling followed by generating
- `wellScoped_of_schedule`: a model that follows a schedule is well-scoped
- `compile_wellScoped`: the program of a graph is the text of a well-scoped model -/

namespace LayerGraph

/-- Every name is bound once, before it is used, and none is the name of the model. -/
structure Model.WellScoped (m : Model) : Prop where
  namesNodup : (m.bindings.map Binding.name).Nodup
  modelFree : "model" ∉ m.bindings.map Binding.name
  sourcesBound : ∀ before b after, m.bindings = before ++ b :: after →
    ∀ s ∈ b.sources, s ∈ before.map Binding.name
  inputsBound : ∀ s ∈ m.inputs, s ∈ m.bindings.map Binding.name
  outputsBound : ∀ s ∈ m.outputs, s ∈ m.bindings.map Binding.name
  inputsNonempty : m.inputs ≠ []
  outputsNonempty : m.outputs ≠ []

/-! ## Names -/

/-- The stem and the id can be told apart in a name. -/
private theorem Role.stem_append_inj {r r' : Role} {s s' : String}
    (h : r.stem ++ "_" ++ s = r'.stem ++ "_" ++ s') : r = r' ∧ s = s' := by
  rw [← String.toList_inj] at h
  -- Different stems differ in their first letter, and the same stem can be taken off both sides.
  cases r <;> cases r' <;> simp [Role.stem, String.toList_inj] at h ⊢ <;> exact h

/-- No stem begins the name of the model. -/
private theorem Role.stem_append_ne_model (r : Role) (s : String) :
    r.stem ++ "_" ++ s ≠ "model" := by
  rw [ne_eq, ← String.toList_inj]
  cases r <;> simp [Role.stem]

namespace Graph

variable {g : Graph}

/-- Names are made with the stem of a role. -/
theorem exists_stem_of_nameOf (g : Graph) (id : NodeId) :
    ∃ r : Role, g.nameOf id = r.stem ++ "_" ++ id.text := by
  rw [nameOf]
  split
  · exact ⟨.input, rfl⟩
  · split
    · exact ⟨.output, rfl⟩
    · exact ⟨.layer, rfl⟩

/-- A name tells the node, in whichever graph. -/
theorem nameOf_injective {g' : Graph} {id id' : NodeId} (h : g.nameOf id = g'.nameOf id') :
    id = id' := by
  obtain ⟨r, hr⟩ := g.exists_stem_of_nameOf id
  obtain ⟨r', hr'⟩ := g'.exists_stem_of_nameOf id'
  rw [hr, hr'] at h
  obtain ⟨_, htext⟩ := Role.stem_append_inj h
  cases id
  cases id'
  exact congrArg NodeId.mk htext

/-- No node has the name of the model. -/
private theorem nameOf_ne_model (g : Graph) (id : NodeId) : g.nameOf id ≠ "model" := by
  obtain ⟨r, hr⟩ := g.exists_stem_of_nameOf id
  rw [hr]
  exact r.stem_append_ne_model id.text

/-- No two nodes have the same name. -/
theorem bindingName_injective {id id' : NodeId} {name : String} (h : g.bindingName id = .ok name)
    (h' : g.bindingName id' = .ok name) : id = id' := by
  obtain ⟨_, rfl⟩ := (bindingName_eq_ok_iff id name).mp h
  obtain ⟨_, hname⟩ := (bindingName_eq_ok_iff id' _).mp h'
  exact nameOf_injective hname

/-! ## The program -/

/-- Compiling is scheduling followed by generating. -/
theorem compile_result (g : Graph) (o : Options) :
    (g.compile o).result = g.schedule.result >>= fun order => (g.generate o order).result := by
  simp only [compile, Traced.result_bind, Traced.result_report, Traced.result_pure]
  show (g.schedule.result >>= fun order => (g.generate o order).result >>= pure) = _
  simp only [bind_pure]

/-- In functional style the functional program is generated. -/
theorem generate_functional (g : Graph) {o : Options} (hstyle : o.style = .functional)
    (order : List NodeId) : g.generate o order = g.functional o order := by
  simp only [generate, hstyle]

/-- Compiling to a functional program is scheduling and writing down the model. -/
theorem compile_functional_eq_ok_iff (hg : g.WellFormed) {o : Options}
    (hstyle : o.style = .functional) (code : String) :
    (g.compile o).result = .ok code ↔
      ∃ order, g.schedule.result = .ok order ∧ g.modelFault? order = none ∧
        code = o.target.programText o (g.modelOf order) := by
  simp only [compile_result, Except.bind_eq_ok_iff, generate_functional g hstyle,
    functional_result hg, Except.unlessFault_eq_ok_iff]

/-! ## Scope -/

/-- The statements of nodes bind the names of the nodes. -/
theorem map_name_bindingOf (g : Graph) (order : List NodeId) :
    (order.map g.bindingOf).map Binding.name = order.map g.nameOf := by
  rw [List.map_map]
  rfl

/-- In the statements of an order every source has its statement earlier. -/
theorem sourcesBound_of_ordered {order : List NodeId} (h : g.Ordered order)
    {before : List Binding} {b : Binding} {after : List Binding}
    (hsplit : order.map g.bindingOf = before ++ b :: after) :
    ∀ s ∈ b.sources, s ∈ before.map Binding.name := by
  -- A split of the statements comes from a split of the nodes.
  obtain ⟨l₁, l₂, rfl, rfl, hrest⟩ := List.map_eq_append_iff.mp hsplit
  obtain ⟨id, l₃, rfl, rfl, _⟩ := List.map_eq_cons_iff.mp hrest
  intro name hname
  obtain ⟨s, hs, rfl⟩ := List.mem_map.mp hname
  have hearlier : s ∈ l₁ := h l₁ id l₃ rfl s hs
  rw [map_name_bindingOf]
  exact List.mem_map_of_mem hearlier

section Scheduled

variable {order : List NodeId}

/-- Only declared nodes are scheduled. -/
theorem mem_ids_of_mem_schedule (hg : g.WellFormed) (h : g.schedule.result = .ok order) :
    ∀ id ∈ order, id ∈ g.ids := fun id hid => ((mem_schedule_iff hg h id).mp hid).1.mem_ids

/-- No output is scheduled, so every scheduled node has its statement. -/
theorem filter_not_isOutput_of_schedule (hg : g.WellFormed) (h : g.schedule.result = .ok order) :
    (order.filter fun id => !g.isOutput id) = order := by
  refine List.filter_eq_self.mpr fun id hid => ?_
  rw [((mem_schedule_iff hg h id).mp hid).2]
  rfl

/-- The model of a schedule has one statement for each scheduled node. -/
theorem modelOf_bindings_of_schedule (hg : g.WellFormed) (h : g.schedule.result = .ok order) :
    (g.modelOf order).bindings = order.map g.bindingOf := by
  rw [modelOf, filter_not_isOutput_of_schedule hg h]

/-- The model that follows a schedule is well-scoped. -/
theorem wellScoped_of_schedule (hg : g.WellFormed) (h : g.schedule.result = .ok order)
    (hfault : g.modelFault? order = none) : (g.modelOf order).WellScoped := by
  have hbindings := modelOf_bindings_of_schedule hg h
  have hnames : (g.modelOf order).bindings.map Binding.name = order.map g.nameOf := by
    rw [hbindings, map_name_bindingOf]
  obtain ⟨_, hins, houts, hsources⟩ := (g.modelFault?_eq_none_iff order).mp hfault
  refine ⟨?_, ?_, ?_, ?_, ?_, ?_, ?_⟩
  · -- Different nodes have different names, and none that of the model.
    rw [hnames]
    exact (nodup_of_schedule hg h).map fun _ _ => nameOf_injective
  · rw [hnames]
    intro hmem
    obtain ⟨id, _, hname⟩ := List.mem_map.mp hmem
    exact g.nameOf_ne_model id hname
  · -- A statement uses the names of sources, which come earlier in the schedule.
    intro before b after hsplit
    rw [hbindings] at hsplit
    exact sourcesBound_of_ordered (ordered_of_schedule hg h) hsplit
  · intro name hname
    rw [hnames]
    obtain ⟨i, hi, rfl⟩ := List.mem_map.mp hname
    -- The inputs are the part of the schedule that has this role.
    rw [← filter_isInput_of_schedule hg h] at hi
    exact List.mem_map_of_mem (List.mem_filter.mp hi).1
  · intro name hname
    rw [hnames]
    obtain ⟨output, houtput, hname⟩ := List.mem_flatMap.mp hname
    obtain ⟨s, hs, rfl⟩ := List.mem_map.mp hname
    exact List.mem_map_of_mem ((hsources output houtput).2 s hs)
  · exact mt List.map_eq_nil_iff.mp hins
  · -- There is an output, and it has a source.
    obtain ⟨output, houtput⟩ := List.exists_mem_of_ne_nil _ houts
    intro hnil
    have hsource := List.flatMap_eq_nil_iff.mp hnil output houtput
    exact (hsources output houtput).1 (List.map_eq_nil_iff.mp hsource)

end Scheduled

/-- The program of a graph is the text of a model with one statement for each node of the schedule,
    which takes the inputs and returns the sources of the outputs.  Different nodes have different
    names, and the model is well-scoped. -/
theorem compile_wellScoped (hg : g.Built) {o : Options} (hstyle : o.style = .functional)
    {code : String} (h : (g.compile o).result = .ok code) :
    ∃ order m, g.schedule.result = .ok order ∧ code = o.target.programText o m ∧
      m.bindings = order.map g.bindingOf ∧ m.inputs = g.inputs.map g.nameOf ∧
      m.outputs = g.outputs.flatMap (fun output => (g.sourcesOf output).map g.nameOf) ∧
      order.mapM g.bindingName = .ok (m.bindings.map Binding.name) ∧
      (∀ id id' name, g.bindingName id = .ok name → g.bindingName id' = .ok name → id = id') ∧
      m.WellScoped := by
  have hwf := hg.wellFormed
  obtain ⟨order, hschedule, hfault, hcode⟩ := (compile_functional_eq_ok_iff hwf hstyle code).mp h
  have hbindings := modelOf_bindings_of_schedule hwf hschedule
  have hnames : order.mapM g.bindingName = .ok ((g.modelOf order).bindings.map Binding.name) := by
    rw [hbindings, map_name_bindingOf]
    exact mapM_bindingName (mem_ids_of_mem_schedule hwf hschedule)
  exact ⟨order, g.modelOf order, hschedule, hcode, hbindings, rfl, rfl, hnames,
    fun _ _ _ => bindingName_injective, wellScoped_of_schedule hwf hschedule hfault⟩

/-- An input that is used twice by one layer and returned as well. -/
theorem compile_wellScoped_crossing :
    crossing.Built ∧ ∃ (code : String) (m : Model),
      (crossing.compile { target := .tensorFlowJs }).result = .ok code ∧
      code = Text.ofLines [
        "import * as tf from '@tensorflow/tfjs';",
        "",
        "function createModel() \x7b",
        "    const input_a = tf.input(\x7b\x7d);",
        "    const input_b = tf.input(\x7b\x7d);",
        "    const layer_x = tf.layers.add(\x7b\x7d).apply([input_a, input_b, input_a]);",
        "    const model = tf.model(\x7binputs: [input_a, input_b], " ++
          "outputs: [layer_x, input_b]\x7d);",
        "    return model;",
        "\x7d"] ∧
      code = Target.tensorFlowJs.programText { target := .tensorFlowJs } m ∧
      (m.bindings.map fun b => (b.name, b.sources)) = [("input_a", []), ("input_b", []),
        ("layer_x", ["input_a", "input_b", "input_a"])] ∧ m.WellScoped := by
  have hschedule : crossing.schedule.result = .ok [⟨"a"⟩, ⟨"b"⟩, ⟨"x"⟩] := by cbv
  have hcompile : (crossing.compile { target := .tensorFlowJs }).result =
      (crossing.generate { target := .tensorFlowJs } [⟨"a"⟩, ⟨"b"⟩, ⟨"x"⟩]).result := by
    rw [compile_result, hschedule, Except.ok_bind]
  obtain ⟨order, m, horder, hcode, hbindings, _, _, _, _, hscoped⟩ :=
    compile_wellScoped crossing_built rfl hcompile
  rw [hschedule] at horder
  cases horder
  exact ⟨crossing_built, _, m, hcompile, by decide +kernel, hcode, by rw [hbindings]; rfl, hscoped⟩

end Graph

end LayerGraph
