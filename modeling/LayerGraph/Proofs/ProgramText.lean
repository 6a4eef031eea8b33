import LayerGraph.Program.TensorFlowJs

/-! # The text of a program

What a program of each target looks like, written down as a whole.  The generators put programs
together piece by piece and may fail on the way; nothing here is made with their pieces, apart from
the spellings of single names.

A functional program is given by a `Model`: for each statement the name that it binds, the layer
and the names of the results that the layer is applied to, and for the model the names of its inputs
and outputs.  A sequential program is given by the kinds and parameters of its layers.

## Key definitions

- `Target.functionText`: a function with given statements
- `Target.programText`: a functional program
- `Target.stackText`: a sequential program
- `TensorFlowJs.objectText`: an object with given entries -/

namespace LayerGraph

/-- A statement of a functional program: the name that it binds, the layer that makes the result,
    and the names of the results that the layer is applied to. -/
structure Binding where
  name : String
  kind : String
  parameters : Parameters
  sources : List String

/-- A functional program: its statements, and what the model takes and returns. -/
structure Model where
  bindings : List Binding
  inputs : List String
  outputs : List String

namespace Text

/-- Texts, each on a line of its own. -/
def ofLines (lines : List String) : String := String.join (lines.map (· ++ "\n"))

/-- A single name as it is, and any other number of names as a list. -/
def namesText : List String → String
  | [name] => name
  | names => "[" ++ ", ".intercalate names ++ "]"

@[simp] theorem ofLines_nil : ofLines [] = "" := rfl

@[simp] theorem ofLines_cons (line : String) (lines : List String) :
    ofLines (line :: lines) = line ++ "\n" ++ ofLines lines := by
  rw [ofLines, List.map_cons, String.join_cons, ofLines]

/-- The lines of two texts in a row. -/
theorem ofLines_append (lines lines' : List String) :
    ofLines (lines ++ lines') = ofLines lines ++ ofLines lines' := by
  rw [ofLines, List.map_append, String.join_append, ofLines, ofLines]

/-- Joining by hand is what the library does. -/
theorem join_eq_intercalate (separator : String) (l : List String) :
    join separator l = separator.intercalate l := by
  fun_induction join separator l with
  | case1 => rw [String.intercalate_nil]
  | case2 s => rw [String.intercalate_singleton]
  | case3 s t rest ih => rw [ih, String.intercalate_cons_cons]

end Text

/-! ## Keras -/

namespace Keras

/-- A parameter as a keyword argument. -/
def argumentText (entry : String × Value) : String :=
  entry.1 ++ "=" ++ LiteralStyle.python.text entry.2

/-- A layer with its parameters. -/
def layerText (kind : String) (entries : List (String × Value)) : String :=
  "keras.layers." ++ kind ++ "(" ++ ",".intercalate (entries.map argumentText) ++ ")"

/-- Applies what stands before to some results: to one, or to a list of several. -/
def sourcesText : List String → String
  | [] => ""
  | [source] => "(" ++ source ++ ")"
  | sources => "([" ++ ",".intercalate sources ++ "])"

/-- Binds the result of a layer to a name. -/
def bindingText (b : Binding) : String :=
  b.name ++ " = " ++ layerText b.kind b.parameters.entries ++ sourcesText b.sources

/-- Makes a model with some inputs and outputs. -/
def modelText (inputs outputs : List String) : String :=
  "model = keras.models.Model(inputs=" ++ Text.namesText inputs ++ ", outputs="
    ++ Text.namesText outputs ++ ")"

/-- Puts a layer on a stack. -/
def additionText (kind : String) (entries : List (String × Value)) : String :=
  "model.add(" ++ layerText kind entries ++ ")"

/-- The lines before the statements of a program. -/
def headerLines (o : Options) : List String :=
  [match o.kerasImport with
    | .standalone => "import keras"
    | .tensorFlow => "from tensorflow import keras",
    "",
    "def " ++ o.name ++ "():"]

/-- A function with the given statements that returns the model. -/
def functionText (o : Options) (statements : List String) : String :=
  Text.ofLines (headerLines o ++ (statements ++ ["return model"]).map ("    " ++ ·))

end Keras

/-! ## TensorFlow.js -/

namespace TensorFlowJs

/-- An object with some entries. -/
def objectText (entries : List (String × Value)) : String :=
  "\x7b" ++ ", ".intercalate (entries.map fun e => e.1 ++ ": " ++ LiteralStyle.javascript.text e.2)
    ++ "\x7d"

/-- The entries for some parameters, which have their names in camel case for keys. -/
def optionEntries (entries : List (String × Value)) : List (String × Value) :=
  entries.map fun e => (camelCase e.1, e.2)

@[inherit_doc Keras.sourcesText]
def sourcesText : List String → String
  | [] => ""
  | [source] => ".apply(" ++ source ++ ")"
  | sources => ".apply([" ++ ", ".intercalate sources ++ "])"

/-- The function that makes an input, or a layer of some kind. -/
def makerText (kind : String) : String :=
  if kind = "Input" then "tf.input" else "tf.layers." ++ layerName kind

@[inherit_doc Keras.bindingText]
def bindingText (b : Binding) : String :=
  "const " ++ b.name ++ " = " ++ makerText b.kind ++ "("
    ++ objectText (optionEntries b.parameters.entries) ++ ")" ++ sourcesText b.sources ++ ";"

@[inherit_doc Keras.modelText]
def modelText (inputs outputs : List String) : String :=
  "const model = tf.model(\x7binputs: " ++ Text.namesText inputs ++ ", outputs: "
    ++ Text.namesText outputs ++ "\x7d);"

/-- Puts a layer on a stack, with the entries of its object. -/
def additionText (kind : String) (entries : List (String × Value)) : String :=
  "model.add(tf.layers." ++ layerName kind ++ "(" ++ objectText entries ++ "));"

@[inherit_doc Keras.headerLines]
def headerLines (o : Options) : List String :=
  ["import * as tf from '@tensorflow/tfjs';", "", "function " ++ o.name ++ "() \x7b"]

@[inherit_doc Keras.functionText]
def functionText (o : Options) (statements : List String) : String :=
  Text.ofLines (headerLines o ++ (statements ++ ["return model;"]).map ("    " ++ ·) ++ ["\x7d"])

end TensorFlowJs

/-! ## Programs -/

namespace Target

@[inherit_doc Keras.functionText]
def functionText : Target → Options → List String → String
  | keras => Keras.functionText
  | tensorFlowJs => TensorFlowJs.functionText

@[inherit_doc Keras.bindingText]
def bindingText : Target → Binding → String
  | keras => Keras.bindingText
  | tensorFlowJs => TensorFlowJs.bindingText

@[inherit_doc Keras.modelText]
def modelText : Target → List String → List String → String
  | keras => Keras.modelText
  | tensorFlowJs => TensorFlowJs.modelText

/-- Starts a stack. -/
def emptyStackText : Target → String
  | keras => "model = keras.models.Sequential()"
  | tensorFlowJs => "const model = tf.sequential();"

/-- Puts a layer on a stack. -/
def additionText : Target → String → List (String × Value) → String
  | keras, kind, entries => Keras.additionText kind entries
  | tensorFlowJs, kind, entries =>
    TensorFlowJs.additionText kind (TensorFlowJs.optionEntries entries)

/-- A functional program. -/
def programText (target : Target) (o : Options) (m : Model) : String :=
  target.functionText o
    (m.bindings.map target.bindingText ++ [target.modelText m.inputs m.outputs])

/-- The sequential program that stacks layers of these kinds with these parameters. -/
def stackText (target : Target) (o : Options) (layers : List (String × List (String × Value))) :
    String :=
  target.functionText o
    (target.emptyStackText :: layers.map fun l => target.additionText l.1 l.2)

end Target

end LayerGraph
