import LayerGraph.Literal
import LayerGraph.Options
import LayerGraph.Program
import LayerGraph.Text.Case
import LayerGraph.Traced

/-! # TensorFlow.js programs

A program is a JavaScript function that returns the model.  Names follow the habits of JavaScript:
`Conv2D` is `conv2d`, and `kernel_size` is `kernelSize`.  The statements of functional programs are
reported as they are written. -/

namespace LayerGraph.TensorFlowJs

/-- Ends a name in `1d`, `2d` or `3d` where it ends in `1D`, `2D` or `3D`. -/
def lowerDimension (name : List Char) : List Char :=
  match name.reverse with
  | 'D' :: digit :: rest =>
    if digit ∈ ['1', '2', '3'] then ('d' :: digit :: rest).reverse else name
  | _ => name

/-- The name of the function that makes a layer of this kind. -/
def layerName (kind : String) : String :=
  match kind.toList with
  | [] => ""
  | first :: rest => String.ofList (lowerDimension (Text.lower first ++ rest))

/-- The rest of a name in camel case, after the characters in `out`: underscores go away, and the
    character after them gets its upper-case form. -/
def camelFrom (out : List Char) (upperNext : Bool) : List Char → List Char
  | [] => out
  | c :: rest =>
    -- Underscores at the start of a name leave no trace.
    if c = '_' then camelFrom out (!out.isEmpty) rest
    else if upperNext then camelFrom (out ++ Text.upper c) false rest
    else camelFrom (out ++ [c]) false rest

/-- A name in camel case. -/
def camelCase (name : String) : String := String.ofList (camelFrom [] false name.toList)

/-- The import statement and the head of the function. -/
def prologue (o : Options) : String :=
  "import * as tf from '@tensorflow/tfjs';" ++ "\n\nfunction " ++ o.name ++ "() \x7b\n"

/-- A parameter as an entry of an object. -/
def configEntry (name : String) (value : Value) : String :=
  camelCase name ++ ": " ++ LiteralStyle.javascript.literal value

/-- The options of a layer as an object, in the order of its parameters. -/
def config (params : Parameters) : String :=
  "\x7b" ++ Text.join ", " (params.entries.map fun e => configEntry e.1 e.2) ++ "\x7d"

/-! ## Functional programs -/

/-- The application of a layer to the results of its sources. -/
def application (g : Graph) (sources : List NodeId) : Except CompileError String := do
  match ← sources.mapM g.bindingName with
  | [] => return ""
  | [name] => return ".apply(" ++ name ++ ")"
  | names => return ".apply([" ++ Text.join ", " names ++ "])"

/-- The function that makes a node; there is none for outputs. -/
def maker? (n : Node) : Option String :=
  match n.role with
  | .output => none
  | .input => some "tf.input"
  | .layer => some ("tf.layers." ++ layerName n.kind)

/-- The statement of a node; it is empty for an output. -/
def statement (g : Graph) (id : NodeId) : Except CompileError String := do
  let n ← g.node id
  match maker? n with
  | none => return ""
  | some maker =>
    let name ← g.bindingName id
    let application ← application g n.sources
    return "const " ++ name ++ " = " ++ maker ++ "(" ++ config n.parameters ++ ")" ++ application
      ++ ";"

/-- Adds the statement of a node to the code, unless it is empty. -/
def addStatement (g : Graph) (code : String) (id : NodeId) : Traced String := do
  let statement ← statement g id
  if statement.isEmpty then return code
  else
    Traced.report [.statementWritten statement]
    return code ++ Program.line statement

/-- Generates a functional program. -/
def functional (g : Graph) (o : Options) (order : List NodeId) : Traced String := do
  let code ← order.foldlM (addStatement g) (prologue o)
  let inputs ← g.modelInputs
  let outputs ← g.modelOutputs order
  let model := "const model = tf.model(\x7binputs: " ++ Program.endpoints inputs ++ ", outputs: "
    ++ Program.endpoints outputs ++ "\x7d);"
  return code ++ Program.line model ++ Program.line "return model;" ++ "\x7d\n"

/-! ## Sequential programs -/

/-- Adds the statement of a layer to the code.  The layer comes with its index, and the first one
    gets the shape of the input if it does not have an input shape already. -/
def addLayer (g : Graph) (inputShape : Value) (code : String) (layer : NodeId × Nat) :
    Except CompileError String := do
  let n ← g.node layer.1
  let params :=
    if layer.2 = 0 ∧ !n.parameters.contains "input_shape" then
      n.parameters.insert "input_shape" inputShape
    else n.parameters
  return code ++ Program.line ("model.add(tf.layers." ++ layerName n.kind ++ "(" ++ config params
    ++ "));")

/-- Generates a sequential program. -/
def sequential (g : Graph) (o : Options) (c : Chain) : Except CompileError String := do
  let inputShape ← c.inputShape g
  let code ← c.layers.zipIdx.foldlM (addLayer g inputShape)
    (prologue o ++ Program.line "const model = tf.sequential();")
  return code ++ Program.line "return model;" ++ "\x7d\n"

end LayerGraph.TensorFlowJs
