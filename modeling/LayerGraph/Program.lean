import LayerGraph.Chain
import LayerGraph.Text.Join

/-! # Programs

What the programs of all targets have in common: the names that the results of nodes are bound to,
what the model takes and returns, and how statements are indented.  How a statement is worded is a
matter of each target. -/

namespace LayerGraph

/-- The part of a binding name that tells the role. -/
def Role.stem : Role → String
  | input => "input"
  | output => "output"
  | layer => "layer"

namespace Graph

/-- The name that the result of a node is bound to. -/
def bindingName (g : Graph) (id : NodeId) : Except CompileError String := do
  let n ← g.node id
  return n.role.stem ++ "_" ++ id.text

/-- The names of the inputs of the model. -/
def modelInputs (g : Graph) : Except CompileError (List String) :=
  if g.inputs.isEmpty then .error .noInput else g.inputs.mapM g.bindingName

/-- The name of a source of an output, which must have been bound by then. -/
def outputSource (g : Graph) (order : List NodeId) (output source : NodeId) :
    Except CompileError String :=
  if source ∈ order then g.bindingName source
  else .error (.malformedGraph output (.unconnectedSource source))

/-- The names of the results that an output stands for. -/
def outputNames (g : Graph) (order : List NodeId) (output : NodeId) :
    Except CompileError (List String) := do
  let n ← g.node output
  if n.sources.isEmpty then throw (.malformedGraph output .outputWithoutSources)
  else n.sources.mapM (g.outputSource order output)

/-- The names of the outputs of the model, where the nodes in `order` have been bound. -/
def modelOutputs (g : Graph) (order : List NodeId) : Except CompileError (List String) :=
  if g.outputs.isEmpty then .error .noOutput
  else do return (← g.outputs.mapM (g.outputNames order)).flatten

end Graph

namespace Program

/-- A statement of a function body, on a line of its own. -/
def line (statement : String) : String := "    " ++ statement ++ "\n"

/-- The names of the inputs or outputs of a model: a single name, or a list. -/
def endpoints : List String → String
  | [name] => name
  | names => "[" ++ Text.join ", " names ++ "]"

end Program

end LayerGraph
