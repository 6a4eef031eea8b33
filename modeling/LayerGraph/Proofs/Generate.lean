import LayerGraph.Proofs.Library
import LayerGraph.Proofs.ProgramText
import LayerGraph.Proofs.WellFormed

/-! # What a program says

A program can be generated for any list of nodes and any chain: ids may be unknown, repeated,
missing or those of outputs.  `modelFault?` and `stackFault?` say what goes wrong first, and
`modelOf` and `stackOf` what the program says if nothing does.  None of them looks at the target.

For a functional program what goes wrong is the first of: an unknown id in the list, no inputs, no
outputs, and an output with a source that is missing from the list.

## Key results

- `modelInputs_eq_unlessFault`, `modelOutputs_eq_unlessFault`: what the model takes and returns
- `modelFault?_eq_none_iff`: when there is a functional program -/

namespace LayerGraph.Graph

variable {g : Graph} {order : List NodeId}

/-! ## Nodes -/

/-- The name that the result of a node is bound to. -/
def nameOf (g : Graph) (id : NodeId) : String :=
  (if g.isInput id then "input_" else if g.isOutput id then "output_" else "layer_") ++ id.text

/-- The kind of a node, where it is declared. -/
def kindOf (g : Graph) (id : NodeId) : String := (g.get? id).elim "" Node.kind

/-- The parameters of a node, where it is declared. -/
def parametersOf (g : Graph) (id : NodeId) : Parameters := (g.get? id).elim ∅ Node.parameters

/-- The statement of a node, where it is declared. -/
def bindingOf (g : Graph) (id : NodeId) : Binding where
  name := g.nameOf id
  kind := g.kindOf id
  parameters := g.parametersOf id
  sources := (g.sourcesOf id).map g.nameOf

theorem kindOf_of_get? {id : NodeId} {n : Node} (h : g.get? id = some n) :
    g.kindOf id = n.kind := by
  simp [kindOf, h]

theorem parametersOf_of_get? {id : NodeId} {n : Node} (h : g.get? id = some n) :
    g.parametersOf id = n.parameters := by
  simp [parametersOf, h]

/-- The name of a declared node begins with the stem of its role. -/
private theorem nameOf_of_get? {id : NodeId} {n : Node} (h : g.get? id = some n) :
    g.nameOf id = n.role.stem ++ "_" ++ id.text := by
  rw [nameOf, isInput, hasRole, isOutput_of_get? h, h, Node.isOutput, Option.any_some]
  cases n.role <;> rfl

/-- Every declared node has a name, and no other id has one. -/
theorem bindingName_eq_ok_iff (id : NodeId) (name : String) :
    g.bindingName id = .ok name ↔ id ∈ g.ids ∧ name = g.nameOf id := by
  rw [bindingName, mem_ids_iff, node]
  cases hn : g.get? id with
  | none => simp [bind, Except.bind]
  | some n => simp [bind, Except.bind, pure, Except.pure, nameOf_of_get? hn, eq_comm]

/-- Declared nodes have names. -/
theorem mapM_bindingName {ids : List NodeId} (h : ∀ id ∈ ids, id ∈ g.ids) :
    ids.mapM g.bindingName = .ok (ids.map g.nameOf) :=
  (Except.mapM_eq_ok_iff fun id _ name => bindingName_eq_ok_iff id name).mpr ⟨h, rfl⟩

/-! ## What can go wrong -/

/-- The error for an id that names no node. -/
def undeclared? (g : Graph) (id : NodeId) : Option CompileError :=
  if id ∈ g.ids then none else some (.malformedGraph id .undeclared)

/-- What is wrong with an output of a model whose statements are those of `order`. -/
def outputFault? (g : Graph) (order : List NodeId) (output : NodeId) : Option GraphFault :=
  if g.sourcesOf output = [] then some .outputWithoutSources
  else ((g.sourcesOf output).find? fun s => s ∉ order).map .unconnectedSource

/-- What goes wrong first with the outputs of a model. -/
def outputsFault? (g : Graph) (order : List NodeId) : Option CompileError :=
  if g.outputs = [] then some .noOutput
  else g.outputs.findSome? fun output => (g.outputFault? order output).map (.malformedGraph output)

/-- What goes wrong first in a functional program with the statements of `order`. -/
def modelFault? (g : Graph) (order : List NodeId) : Option CompileError :=
  (order.findSome? g.undeclared?).or
    ((if g.inputs = [] then some .noInput else none).or (g.outputsFault? order))

/-- What goes wrong first in the sequential program of a chain. -/
def stackFault? (g : Graph) (c : Chain) : Option CompileError :=
  (c.input :: c.layers).findSome? g.undeclared?

/-- The input of a chain is looked up before its layers. -/
theorem stackFault?_eq_or (g : Graph) (c : Chain) :
    g.stackFault? c = (g.undeclared? c.input).or (c.layers.findSome? g.undeclared?) := by
  rw [stackFault?, List.findSome?_cons]
  cases g.undeclared? c.input with
  | none => rfl
  | some e => rfl

theorem undeclared?_of_mem {id : NodeId} (h : id ∈ g.ids) : g.undeclared? id = none := if_pos h

theorem undeclared?_of_not_mem {id : NodeId} (h : id ∉ g.ids) :
    g.undeclared? id = some (.malformedGraph id .undeclared) := if_neg h

/-- Looking up an id that names no node is an error. -/
theorem node_of_not_mem {id : NodeId} (h : id ∉ g.ids) :
    g.node id = .error (.malformedGraph id .undeclared) := by
  rw [mem_ids_iff] at h
  rw [node]
  cases hn : g.get? id with
  | none => rfl
  | some n => exact absurd ⟨n, hn⟩ h

/-! ## Functional programs -/

/-- What a functional program with the statements of `order` says. -/
def modelOf (g : Graph) (order : List NodeId) : Model where
  bindings := (order.filter fun id => !g.isOutput id).map g.bindingOf
  inputs := g.inputs.map g.nameOf
  outputs := g.outputs.flatMap fun output => (g.sourcesOf output).map g.nameOf

/-- The model takes the inputs, unless there is none. -/
theorem modelInputs_eq_unlessFault (hg : g.WellFormed) (order : List NodeId) :
    g.modelInputs = .unlessFault (if g.inputs = [] then some .noInput else none)
      (g.modelOf order).inputs := by
  rw [modelInputs, mapM_bindingName fun id hid => hg.mem_ids_of_mem_inputs hid, modelOf]
  cases g.inputs with
  | nil => rfl
  | cons i is => rfl

/-- An output stands for its sources, unless something is wrong with it. -/
private theorem outputNames_eq_unlessFault (hg : g.WellFormed) (order : List NodeId)
    {output : NodeId} (hout : output ∈ g.outputs) :
    g.outputNames order output =
      .unlessFault ((g.outputFault? order output).map (.malformedGraph output))
        ((g.sourcesOf output).map g.nameOf) := by
  obtain ⟨n, hn⟩ := (g.mem_ids_iff output).mp (hg.mem_ids_of_mem_outputs hout)
  -- A source must be in the list to have a name by then.
  have hsource : ∀ s ∈ g.sourcesOf output, g.outputSource order output s =
      .unlessFault (if s ∈ order then none
        else some (.malformedGraph output (.unconnectedSource s))) (g.nameOf s) := by
    intro s hs
    rw [outputSource]
    split
    · exact (bindingName_eq_ok_iff s _).mpr ⟨hg.sourcesDeclared output s hs, rfl⟩
    · rfl
  rw [outputNames, node_of_get? hn, outputFault?]
  show (if n.sources.isEmpty then _ else _) = _
  rw [← sourcesOf_of_get? hn]
  -- An output without sources is refused at once.
  by_cases hnil : g.sourcesOf output = []
  · rw [if_pos (by rw [hnil]; rfl), if_pos hnil]
    rfl
  · rw [if_neg (by simpa using hnil), if_neg hnil, Except.mapM_eq_unlessFault hsource,
      List.find?_eq_findSome?_guard, List.map_findSome?, List.map_findSome?]
    -- The first source with a fault is the first one that is missing.
    congr 2
    funext s
    by_cases hs : s ∈ order
    · simp [Option.guard, hs]
    · simp [Option.guard, hs]

/-- The model returns the sources of the outputs, unless something is wrong with one of them. -/
theorem modelOutputs_eq_unlessFault (hg : g.WellFormed) (order : List NodeId) :
    g.modelOutputs order = .unlessFault (g.outputsFault? order) (g.modelOf order).outputs := by
  rw [modelOutputs, outputsFault?]
  by_cases hnil : g.outputs = []
  · rw [if_pos (by rw [hnil]; rfl), if_pos hnil]
    rfl
  · rw [if_neg (by simpa using hnil), if_neg hnil, modelOf, List.flatMap_def,
      Except.mapM_eq_unlessFault fun output hout => outputNames_eq_unlessFault hg order hout]
    exact Except.unlessFault_map _ _ List.flatten

/-! ## When there is a functional program -/

/-- No id of a list is unknown if all of them are declared. -/
theorem findSome?_undeclared?_eq_none_iff (g : Graph) (ids : List NodeId) :
    ids.findSome? g.undeclared? = none ↔ ∀ id ∈ ids, id ∈ g.ids := by
  rw [List.findSome?_eq_none_iff]
  refine forall₂_congr fun id _ => ⟨fun h => ?_, undeclared?_of_mem⟩
  by_contra hid
  rw [undeclared?_of_not_mem hid] at h
  cases h

/-- Nothing is wrong with an output that has sources, all of them in the list. -/
theorem outputFault?_eq_none_iff (g : Graph) (order : List NodeId) (output : NodeId) :
    g.outputFault? order output = none ↔
      g.sourcesOf output ≠ [] ∧ ∀ s ∈ g.sourcesOf output, s ∈ order := by
  rw [outputFault?]
  split
  · next hnil => simp [hnil]
  · next hnil => simp [hnil]

/-- Nothing is wrong with the outputs if there are any and each of them is fit. -/
theorem outputsFault?_eq_none_iff (g : Graph) (order : List NodeId) :
    g.outputsFault? order = none ↔ g.outputs ≠ [] ∧
      ∀ o ∈ g.outputs, g.sourcesOf o ≠ [] ∧ ∀ s ∈ g.sourcesOf o, s ∈ order := by
  rw [outputsFault?]
  split
  · next hnil => simp [hnil]
  · next hnil =>
    rw [and_iff_right hnil, List.findSome?_eq_none_iff]
    simp only [Option.map_eq_none_iff, outputFault?_eq_none_iff]

/-- There is a functional program if all ids of the list are declared, there is an input, and
    nothing is wrong with the outputs. -/
theorem modelFault?_eq_none_iff (g : Graph) (order : List NodeId) :
    g.modelFault? order = none ↔ (∀ id ∈ order, id ∈ g.ids) ∧ g.inputs ≠ [] ∧ g.outputs ≠ [] ∧
      ∀ o ∈ g.outputs, g.sourcesOf o ≠ [] ∧ ∀ s ∈ g.sourcesOf o, s ∈ order := by
  rw [modelFault?, Option.or_eq_none_iff, Option.or_eq_none_iff,
    findSome?_undeclared?_eq_none_iff, outputsFault?_eq_none_iff]
  simp

/-! ## Sequential programs -/

/-- The shape of the input of a chain, where that is declared. -/
def shapeOf (g : Graph) (c : Chain) : Value :=
  ((g.parametersOf c.input).get? "shape").getD defaultShape

/-- The parameters of the first layer of a sequential program: those of the node, and behind them
    the shape of the input, unless the node has an input shape of this name. -/
def firstEntries (g : Graph) (c : Chain) (first : NodeId) : List (String × Value) :=
  (g.parametersOf first).entries ++
    if (g.parametersOf first).contains "input_shape" then [] else [("input_shape", g.shapeOf c)]

/-- The kinds and parameters of the layers that the sequential program of a chain stacks. -/
def stackOf (g : Graph) (c : Chain) : List (String × List (String × Value)) :=
  match c.layers with
  | [] => []
  | first :: rest => (g.kindOf first, g.firstEntries c first) ::
      rest.map fun id => (g.kindOf id, (g.parametersOf id).entries)

end LayerGraph.Graph
