import LayerGraph.Proofs.Emission
import LayerGraph.Proofs.Schedule

/-! # The targets agree

Keras and TensorFlow.js have generators of their own, with their own loops and their own places
where they can fail.  All the same, what goes wrong in generating a program, and what the program
says if nothing does, is a matter of the graph and of the list of nodes or the chain.  The targets
add only their wording: for one `Model` the statements of both programs bind the same names, apply
the layers to the same names and make a model with the same inputs and outputs.

## Key results

- `targets_agree`: the programs of the two targets -/

namespace LayerGraph.Graph

variable {g : Graph}

/-- Whatever nodes a program is made of, the programs of both targets exist, or both fail with the
    error of what goes wrong first.  Both functional programs have one statement for each of the
    nodes that is not an output, which binds the same name and applies the layer to the same names,
    and make a model with the same inputs and outputs.  Both sequential programs stack layers of the
    same kinds with the same parameters. -/
theorem targets_agree (hg : g.Built) (o o' : Options) (order : List NodeId) (c : Chain) :
    (match g.modelFault? order with
      | some e =>
        (Keras.functional g o order).result = .error e ∧
        (TensorFlowJs.functional g o' order).result = .error e
      | none => ∃ m : Model,
        m.bindings = (order.filter fun id => !g.isOutput id).map g.bindingOf ∧
        m.inputs = g.inputs.map g.nameOf ∧
        m.outputs = g.outputs.flatMap (fun output => (g.sourcesOf output).map g.nameOf) ∧
        (Keras.functional g o order).result = .ok (Keras.functionText o
          (m.bindings.map Keras.bindingText ++ [Keras.modelText m.inputs m.outputs])) ∧
        (TensorFlowJs.functional g o' order).result = .ok (TensorFlowJs.functionText o'
          (m.bindings.map TensorFlowJs.bindingText ++
            [TensorFlowJs.modelText m.inputs m.outputs]))) ∧
    match g.stackFault? c with
      | some e =>
        (Keras.sequential g o c).result = .error e ∧ TensorFlowJs.sequential g o' c = .error e
      | none => ∃ layers,
        (Keras.sequential g o c).result = .ok (Target.keras.stackText o layers) ∧
        TensorFlowJs.sequential g o' c = .ok (Target.tensorFlowJs.stackText o' layers) := by
  have hwf := hg.wellFormed
  rw [Keras.functional_result hwf, TensorFlowJs.functional_result hwf, Keras.sequential_result,
    TensorFlowJs.sequential_eq_unlessFault]
  constructor
  · cases g.modelFault? order with
    | some e => exact ⟨rfl, rfl⟩
    | none => exact ⟨g.modelOf order, rfl, rfl, rfl, rfl, rfl⟩
  · cases g.stackFault? c with
    | some e => exact ⟨rfl, rfl⟩
    | none => exact ⟨g.stackOf c, rfl, rfl⟩

/-- A list with the output and an input twice and without the other input, and a chain with a layer
    that does not exist. -/
theorem targets_agree_crossing :
    crossing.Built ∧
    (∃ m : Model,
      (m.bindings.map fun b => (b.name, b.sources)) = [("input_b", []),
        ("layer_x", ["input_a", "input_b", "input_a"]), ("input_b", [])] ∧
      (Keras.functional crossing { } [⟨"y"⟩, ⟨"b"⟩, ⟨"x"⟩, ⟨"b"⟩]).result =
        .ok (Keras.functionText { }
          (m.bindings.map Keras.bindingText ++ [Keras.modelText m.inputs m.outputs])) ∧
      m.bindings.map Keras.bindingText = [
        "input_b = keras.layers.Input()",
        "layer_x = keras.layers.Add()([input_a,input_b,input_a])",
        "input_b = keras.layers.Input()"] ∧
      m.bindings.map TensorFlowJs.bindingText = [
        "const input_b = tf.input(\x7b\x7d);",
        "const layer_x = tf.layers.add(\x7b\x7d).apply([input_a, input_b, input_a]);",
        "const input_b = tf.input(\x7b\x7d);"]) ∧
    (Keras.sequential crossing { } ⟨⟨"a"⟩, [⟨"x"⟩, ⟨"u"⟩]⟩).result =
      .error (.malformedGraph ⟨"u"⟩ .undeclared) := by
  obtain ⟨hfunctional, hsequential⟩ := targets_agree crossing_built { }
    { target := .tensorFlowJs } [⟨"y"⟩, ⟨"b"⟩, ⟨"x"⟩, ⟨"b"⟩] ⟨⟨"a"⟩, [⟨"x"⟩, ⟨"u"⟩]⟩
  have hfault : crossing.modelFault? [⟨"y"⟩, ⟨"b"⟩, ⟨"x"⟩, ⟨"b"⟩] = none := by decide
  have hfault' : crossing.stackFault? ⟨⟨"a"⟩, [⟨"x"⟩, ⟨"u"⟩]⟩ =
      some (.malformedGraph ⟨"u"⟩ .undeclared) := by decide
  rw [hfault] at hfunctional
  rw [hfault'] at hsequential
  obtain ⟨m, hbindings, _, _, hkeras, _⟩ := hfunctional
  refine ⟨crossing_built, ⟨m, ?_, hkeras, ?_, ?_⟩, hsequential.1⟩
  · rw [hbindings]
    rfl
  · rw [hbindings]
    decide +kernel
  · rw [hbindings]
    decide +kernel

end LayerGraph.Graph
