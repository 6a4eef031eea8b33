import LayerGraph.Literal
import LayerGraph.Options
import LayerGraph.Program
import LayerGraph.Traced

/-! # Keras programs

A program is a Python function that returns the model.  Statements are reported as they are
written. -/

namespace LayerGraph.Keras

/-- The import statement and the head of the function. -/
def prologue (o : Options) : String :=
  o.kerasImport.statement ++ "\n\n" ++ "def " ++ o.name ++ "():\n"

/-- A parameter as a keyword argument. -/
def argument (name : String) (value : Value) : String :=
  name ++ "=" ++ LiteralStyle.python.literal value

/-- The keyword arguments of a layer, in the order of its parameters. -/
def arguments (params : Parameters) : String :=
  Text.join "," (params.entries.map fun e => argument e.1 e.2)

/-! ## Functional programs -/

/-- The application of a layer to the results of its sources. -/
def application (g : Graph) (sources : List NodeId) : Except CompileError String := do
  match ← sources.mapM g.bindingName with
  | [] => return ""
  | [name] => return "(" ++ name ++ ")"
  | names => return "([" ++ Text.join "," names ++ "])"

/-- The statement of a node; it is empty for an output. -/
def statement (g : Graph) (id : NodeId) : Except CompileError String := do
  let n ← g.node id
  if n.isOutput then return ""
  else
    let name ← g.bindingName id
    let application ← application g n.sources
    return name ++ " = keras.layers." ++ n.kind ++ "(" ++ arguments n.parameters ++ ")"
      ++ application

/-- The statement that makes a model of the layers. -/
def modelStatement (g : Graph) (order : List NodeId) : Except CompileError String := do
  let inputs ← g.modelInputs
  let outputs ← g.modelOutputs order
  return "model = keras.models.Model(inputs=" ++ Program.endpoints inputs ++ ", outputs="
    ++ Program.endpoints outputs ++ ")"

/-- Adds the statement of a node to the code, unless it is empty. -/
def addStatement (g : Graph) (code : String) (id : NodeId) : Traced String := do
  let statement ← statement g id
  if statement.isEmpty then return code
  else
    Traced.report [.statementWritten statement]
    return code ++ Program.line statement

/-- Generates a functional program. -/
def functional (g : Graph) (o : Options) (order : List NodeId) : Traced String := do
  let code ← order.foldlM (addStatement g) (prologue o)
  let model ← modelStatement g order
  return code ++ Program.line model ++ Program.line "return model"

/-! ## Sequential programs -/

/-- The statement of a layer, with the shape of the input if that is given and the layer does not
    have an input shape already. -/
def layerStatement (g : Graph) (id : NodeId) (inputShape : Option Value) :
    Except CompileError String := do
  let n ← g.node id
  let params := match inputShape with
    | some shape =>
      if n.parameters.contains "input_shape" then n.parameters
      else n.parameters.insert "input_shape" shape
    | none => n.parameters
  return "model.add(keras.layers." ++ n.kind ++ "(" ++ arguments params ++ "))"

/-- Adds the statement of a layer to the code.  The layer comes with its index, and the first one
    gets the shape of the input. -/
def addLayer (g : Graph) (inputShape : Value) (code : String) (layer : NodeId × Nat) :
    Traced String := do
  let shape := if layer.2 = 0 then some inputShape else none
  let statement ← layerStatement g layer.1 shape
  Traced.report [.statementWritten statement]
  return code ++ Program.line statement

/-- Generates a sequential program. -/
def sequential (g : Graph) (o : Options) (c : Chain) : Traced String := do
  let inputShape ← c.inputShape g
  let code ← c.layers.zipIdx.foldlM (addLayer g inputShape)
    (prologue o ++ Program.line "model = keras.models.Sequential()")
  return code ++ Program.line "return model"

end LayerGraph.Keras
