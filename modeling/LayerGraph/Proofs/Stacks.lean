import LayerGraph.Proofs.Skeleton
import LayerGraph.Proofs.Styles

/-! # Parameters in a sequential program

A sequential program has a statement for each layer of a chain, and none for the input.  The
statement of a layer lists all its parameters.  Of the parameters of the input the shape finds a
place behind those of the first layer, unless that layer has an input shape of its own; for the
others there is no place at all.  So the automatic style, which prefers the sequential form, loses
them, where the functional form has them in the statement of the input.

## Key results

- `sequential_eq_stackText`: the sequential program of a chain
- `compileAs_auto_withParameters`: only the shape of the input matters to the automatic style
- `compile_auto_parameters`: what the automatic style writes of the parameters on a chain
- `compile_auto_drops`: and what it does not -/

namespace LayerGraph

/-- The literal of a value. -/
def Target.literalText : Target → Value → String
  | keras => LiteralStyle.python.text
  | tensorFlowJs => LiteralStyle.javascript.text

namespace Graph

variable {g : Graph} {o : Options} {c : Chain} {first : NodeId} {rest : List NodeId}

/-! ## The sequential program of a chain -/

/-- The first layer of a chain may get a shape, and the others stay as they are. -/
theorem stackOf_cons (g : Graph) (hlayers : c.layers = first :: rest) :
    g.stackOf c = (g.kindOf first, g.firstEntries c first) ::
      rest.map fun id => (g.kindOf id, (g.parametersOf id).entries) := by
  rw [stackOf, hlayers]

/-- A first layer without an input shape gets that of the input. -/
private theorem firstEntries_of_not_contains (g : Graph) (c : Chain)
    (hfirst : (g.parametersOf first).contains "input_shape" = false) :
    g.firstEntries c first = (g.parametersOf first).entries ++ [("input_shape", g.shapeOf c)] := by
  rw [firstEntries, hfirst, if_neg Bool.false_ne_true]

/-- The sequential program of declared nodes stacks the layers of the chain. -/
theorem sequential_eq_stackText (o : Options) (hids : ∀ id ∈ c.input :: c.layers, id ∈ g.ids) :
    (g.sequential o c).result = .ok (o.target.stackText o (g.stackOf c)) := by
  have hfault : g.stackFault? c = none := (g.findSome?_undeclared?_eq_none_iff _).mpr hids
  rw [sequential_result, hfault]
  rfl

/-! ## Other parameters -/

/-- The graph in which a node has other parameters. -/
def withParameters (g : Graph) (id : NodeId) (params : Parameters) : Graph :=
  ⟨g.nodes.modify id fun n => { n with parameters := params }, g.inputs, g.outputs⟩

/-- Other parameters change one node and nothing else. -/
private theorem get?_withParameters (g : Graph) (id : NodeId) (params : Parameters) (id' : NodeId) :
    (g.withParameters id params).get? id' =
      if id' = id then (g.get? id').map fun n => { n with parameters := params }
      else g.get? id' :=
  OrderedMap.get?_modify _ _ _ _

/-- Parameters are no part of the skeleton. -/
private theorem sameSkeleton_withParameters (g : Graph) (id : NodeId) (params : Parameters) :
    (g.withParameters id params).SameSkeleton g := by
  refine ⟨?_, rfl⟩
  ext1
  simp only [withParameters, OrderedMap.modify, OrderedMap.mapValues, List.map_map]
  refine List.map_congr_left fun e _ => ?_
  simp only [Function.comp_apply]
  split
  · rfl
  · rfl

/-- A chain stays a chain with other parameters. -/
private theorem chain_withParameters (g : Graph) (id : NodeId) (params : Parameters)
    {order : List NodeId} (hc : g.chain order = .ok c) :
    (g.withParameters id params).chain order = .ok c := by
  rw [chain_eq_ok_iff] at hc ⊢
  obtain ⟨hinputs, houtputs, hdegrees, hne, hlayers⟩ := hc
  refine ⟨hinputs, houtputs, fun id' n hn => ?_, hne, hlayers⟩
  -- A node keeps its kind and its edges.
  have hskeleton := sameSkeleton_withParameters g id params
  have hmap := hskeleton.map_get? (f := Node.bare) (fun _ => rfl) id'
  rw [hn] at hmap
  obtain ⟨n', hn', hbare⟩ := Option.map_eq_some_iff.mp hmap.symm
  have hdegree := hdegrees id' n' hn'
  show (n.bare.sources.length, n.bare.targets.length) = n.bare.role.chainDegrees
  rw [← hbare]
  exact hdegree

/-- Nodes keep their kinds. -/
private theorem kindOf_withParameters (g : Graph) (id : NodeId) (params : Parameters) :
    (g.withParameters id params).kindOf = g.kindOf := by
  funext id'
  rw [kindOf, kindOf, get?_withParameters]
  split
  · cases g.get? id' with
    | none => rfl
    | some n => rfl
  · rfl

/-- Other nodes keep their parameters, … -/
private theorem parametersOf_withParameters_of_ne (g : Graph) (params : Parameters)
    {id id' : NodeId} (h : id' ≠ id) :
    (g.withParameters id params).parametersOf id' = g.parametersOf id' := by
  rw [parametersOf, parametersOf, get?_withParameters, if_neg h]

/-- … and the node gets the new ones. -/
private theorem parametersOf_withParameters_self {id : NodeId} (h : id ∈ g.ids)
    (params : Parameters) : (g.withParameters id params).parametersOf id = params := by
  obtain ⟨n, hn⟩ := (g.mem_ids_iff id).mp h
  rw [parametersOf, get?_withParameters, if_pos rfl, hn]
  rfl

/-! ## The automatic style -/

section Automatic

variable {order : List NodeId}

/-- The nodes of a chain are declared. -/
private theorem mem_ids_of_chain (hg : g.WellFormed) (hschedule : g.schedule.result = .ok order)
    (hc : g.chain order = .ok c) : ∀ id ∈ c.input :: c.layers, id ∈ g.ids := by
  obtain ⟨_, _, horder, _, _⟩ := isChain_of_chain hg hschedule hc
  rw [← horder]
  exact mem_ids_of_mem_schedule hg hschedule

/-- No layer of a chain is its input. -/
private theorem ne_input_of_chain (hc : g.chain order = .ok c) : ∀ id ∈ c.layers, id ≠ c.input := by
  obtain ⟨_, _, _, _, hlayers⟩ := (chain_eq_ok_iff g order c).mp hc
  intro id hid
  rw [hlayers, List.mem_filter] at hid
  exact of_decide_eq_true hid.2

/-- The automatic style stacks the layers of a chain, the first one with the shape of the input. -/
private theorem compileAs_auto_eq_stackText (o : Options)
    (hschedule : g.schedule.result = .ok order)
    (hc : g.chain order = .ok c) (hids : ∀ id ∈ c.input :: c.layers, id ∈ g.ids)
    (hlayers : c.layers = first :: rest)
    (hfirst : (g.parametersOf first).contains "input_shape" = false) :
    g.compileAs o .auto = .ok (o.target.stackText o
      ((g.kindOf first, (g.parametersOf first).entries ++ [("input_shape", g.shapeOf c)]) ::
        rest.map fun id => (g.kindOf id, (g.parametersOf id).entries))) := by
  rw [compileAs_auto_of_chain hschedule hc, sequential_eq_stackText o hids,
    stackOf_cons g hlayers, firstEntries_of_not_contains g c hfirst]

/-- Of the parameters of the input only the shape matters to the program. -/
theorem compileAs_auto_withParameters (o : Options) (hschedule : g.schedule.result = .ok order)
    (hc : g.chain order = .ok c) (hids : ∀ id ∈ c.input :: c.layers, id ∈ g.ids)
    (hlayers : c.layers = first :: rest)
    (hfirst : (g.parametersOf first).contains "input_shape" = false) (params : Parameters)
    (hshape : params.get? "shape" = (g.parametersOf c.input).get? "shape") :
    (g.withParameters c.input params).compileAs o .auto = g.compileAs o .auto := by
  have hskeleton := sameSkeleton_withParameters g c.input params
  -- The layers have the parameters that they had.
  have hne := ne_input_of_chain hc
  rw [hlayers, List.forall_mem_cons] at hne
  have hfirst' := parametersOf_withParameters_of_ne g params hne.1
  have hrest' : (rest.map fun id => ((g.withParameters c.input params).kindOf id,
      ((g.withParameters c.input params).parametersOf id).entries)) =
      rest.map fun id => (g.kindOf id, (g.parametersOf id).entries) := by
    refine List.map_congr_left fun id hid => ?_
    rw [kindOf_withParameters, parametersOf_withParameters_of_ne g params (hne.2 id hid)]
  have hshapeOf : (g.withParameters c.input params).shapeOf c = g.shapeOf c := by
    rw [shapeOf, parametersOf_withParameters_self (hids _ List.mem_cons_self), hshape, shapeOf]
  rw [compileAs_auto_eq_stackText o hschedule hc hids hlayers hfirst,
    compileAs_auto_eq_stackText o (by rw [hskeleton.schedule_eq, hschedule])
      (chain_withParameters g c.input params hc) (by rw [hskeleton.ids_eq]; exact hids) hlayers
      (by rw [hfirst', hfirst]), hshapeOf, hfirst', hrest', kindOf_withParameters]

/-- If the automatic style makes a sequential program of a graph, the input has a shape and the
    first layer has no input shape of its own, then the program has one statement for each layer of
    the chain, with all its parameters and their literals, and the shape of the input behind those
    of the first layer.  The other parameters of the input do not matter to the program. -/
theorem compile_auto_parameters (hg : g.Built) (o : Options)
    (hschedule : g.schedule.result = .ok order) (hc : g.chain order = .ok c) {shape : Value}
    (hshape : (g.parametersOf c.input).get? "shape" = some shape)
    (hlayers : c.layers = first :: rest)
    (hfirst : (g.parametersOf first).contains "input_shape" = false) :
    g.compileAs o .auto = .ok (o.target.stackText o
      ((g.kindOf first, (g.parametersOf first).entries ++ [("input_shape", shape)]) ::
        rest.map fun id => (g.kindOf id, (g.parametersOf id).entries))) ∧
    ∀ params : Parameters, params.get? "shape" = some shape →
      (g.withParameters c.input params).compileAs o .auto = g.compileAs o .auto := by
  have hids := mem_ids_of_chain hg.wellFormed hschedule hc
  have hshapeOf : g.shapeOf c = shape := by rw [shapeOf, hshape, Option.getD_some]
  have hprogram := compileAs_auto_eq_stackText o hschedule hc hids hlayers hfirst
  rw [hshapeOf] at hprogram
  refine ⟨hprogram, fun params hparams => ?_⟩
  exact compileAs_auto_withParameters o hschedule hc hids hlayers hfirst params
    (hparams.trans hshape.symm)

end Automatic

/-- Two layers behind an input whose numbers are integers. -/
def typedLine : Graph where
  nodes := ⟨[
    (⟨"a"⟩, ⟨"Input", .ofList [("shape", .seq [.ofInt 4]), ("dtype", .text "int32")], [], [⟨"x"⟩]⟩),
    (⟨"x"⟩, ⟨"Embedding", .ofList [("input_dim", .ofInt 10)], [⟨"a"⟩], [⟨"y"⟩]⟩),
    (⟨"y"⟩, ⟨"Dense", .ofList [("units", .ofInt 2)], [⟨"x"⟩], [⟨"z"⟩]⟩),
    (⟨"z"⟩, ⟨"Output", ∅, [⟨"y"⟩], []⟩)], by decide⟩
  inputs := [⟨"a"⟩]
  outputs := [⟨"z"⟩]

theorem typedLine_built : typedLine.Built := .descriptions [
  ⟨⟨"a"⟩, "Input", .ofList [("shape", .seq [.ofInt 4]), ("dtype", .text "int32")], [], none⟩,
  ⟨⟨"x"⟩, "Embedding", .ofList [("input_dim", .ofInt 10)], [⟨"a"⟩], none⟩,
  ⟨⟨"y"⟩, "Dense", .ofList [("units", .ofInt 2)], [⟨"x"⟩], none⟩,
  ⟨⟨"z"⟩, "Output", ∅, [⟨"y"⟩], none⟩] rfl

private theorem typedLine_schedule : typedLine.schedule.result = .ok [⟨"a"⟩, ⟨"x"⟩, ⟨"y"⟩] := by cbv

private theorem typedLine_chain :
    typedLine.chain [⟨"a"⟩, ⟨"x"⟩, ⟨"y"⟩] = .ok ⟨⟨"a"⟩, [⟨"x"⟩, ⟨"y"⟩]⟩ := rfl

/-- The type of the input is not in the program, and another one would not be either. -/
theorem compile_auto_parameters_typedLine :
    typedLine.Built ∧
    typedLine.compileAs { target := .tensorFlowJs } .auto =
      .ok (Target.tensorFlowJs.stackText { target := .tensorFlowJs }
        [("Embedding", [("input_dim", .ofInt 10), ("input_shape", .seq [.ofInt 4])]),
          ("Dense", [("units", .ofInt 2)])]) ∧
    Target.tensorFlowJs.stackText { target := .tensorFlowJs }
        [("Embedding", [("input_dim", .ofInt 10), ("input_shape", .seq [.ofInt 4])]),
          ("Dense", [("units", .ofInt 2)])] = Text.ofLines [
      "import * as tf from '@tensorflow/tfjs';",
      "",
      "function createModel() \x7b",
      "    const model = tf.sequential();",
      "    model.add(tf.layers.embedding(\x7binputDim: 10, inputShape: [4]\x7d));",
      "    model.add(tf.layers.dense(\x7bunits: 2\x7d));",
      "    return model;",
      "\x7d"] ∧
    (typedLine.withParameters ⟨"a"⟩
        (.ofList [("dtype", .text "float32"), ("shape", .seq [.ofInt 4])])).compileAs
          { target := .tensorFlowJs } .auto =
      typedLine.compileAs { target := .tensorFlowJs } .auto := by
  -- The other parameters may come before the shape or be missing.
  obtain ⟨hprogram, hothers⟩ := compile_auto_parameters typedLine_built { target := .tensorFlowJs }
    typedLine_schedule typedLine_chain rfl rfl rfl
  exact ⟨typedLine_built, hprogram, by decide +kernel, hothers _ rfl⟩

/-- A single layer behind an input whose numbers are integers. -/
def integerLine : Graph where
  nodes := ⟨[
    (⟨"a"⟩, ⟨"Input", .ofList [("shape", .seq [.ofInt 4]), ("dtype", .text "int32")], [], [⟨"x"⟩]⟩),
    (⟨"x"⟩, ⟨"Embedding", .ofList [("input_dim", .ofInt 10)], [⟨"a"⟩], [⟨"z"⟩]⟩),
    (⟨"z"⟩, ⟨"Output", ∅, [⟨"x"⟩], []⟩)], by decide⟩
  inputs := [⟨"a"⟩]
  outputs := [⟨"z"⟩]

private theorem integerLine_built : integerLine.Built := .descriptions [
  ⟨⟨"a"⟩, "Input", .ofList [("shape", .seq [.ofInt 4]), ("dtype", .text "int32")], [], none⟩,
  ⟨⟨"x"⟩, "Embedding", .ofList [("input_dim", .ofInt 10)], [⟨"a"⟩], none⟩,
  ⟨⟨"z"⟩, "Output", ∅, [⟨"x"⟩], none⟩] rfl

private theorem integerLine_schedule : integerLine.schedule.result = .ok [⟨"a"⟩, ⟨"x"⟩] := by cbv

private theorem integerLine_chain :
    integerLine.chain [⟨"a"⟩, ⟨"x"⟩] = .ok ⟨⟨"a"⟩, [⟨"x"⟩]⟩ := rfl

/-- The program has the shape of the input in it, and not the type. -/
private theorem integerLine_compileAs_auto (o : Options) :
    integerLine.compileAs o .auto = .ok (o.target.stackText o
      [("Embedding", [("input_dim", .ofInt 10), ("input_shape", .seq [.ofInt 4])])]) :=
  compileAs_auto_eq_stackText o integerLine_schedule integerLine_chain (by decide) rfl rfl

/-- Neither target writes the values of all parameters of the input: the type of the numbers is
    nowhere in the program. -/
theorem compile_auto_drops :
    ¬ ∃ target : Target, ∀ (g : Graph) (order : List NodeId) (c : Chain) (shape : Value)
      (first : NodeId) (rest : List NodeId) (code : String),
      g.Built → g.schedule.result = .ok order → g.chain order = .ok c →
      (g.parametersOf c.input).get? "shape" = some shape → c.layers = first :: rest →
      (g.parametersOf first).contains "input_shape" = false →
      g.compileAs { target := target } .auto = .ok code →
      ∀ e ∈ (g.parametersOf c.input).entries, e.1 ≠ "shape" →
        (target.literalText e.2).toList <:+: code.toList := by
  rintro ⟨target, hall⟩
  have hwritten := hall integerLine _ _ _ _ _ _ integerLine_built integerLine_schedule
    integerLine_chain rfl rfl rfl (integerLine_compileAs_auto { target := target })
    ("dtype", .text "int32") (.tail _ (.head _)) (by decide)
  -- The program of either target is known, and the literal is searched in it.
  cases target with
  | keras => exact absurd hwritten (by decide +kernel)
  | tensorFlowJs => exact absurd hwritten (by decide +kernel)

end Graph

end LayerGraph
