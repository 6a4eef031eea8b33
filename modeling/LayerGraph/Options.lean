/-! # Compilation options -/

namespace LayerGraph

/-- The library that the generated program uses. -/
inductive Target where
  | keras
  | tensorFlowJs
deriving DecidableEq, Repr

/-- The form of the generated program. -/
inductive Style where
  /-- Every layer is applied to its sources. -/
  | functional
  /-- The layers of a chain are stacked on each other. -/
  | sequential
  /-- Sequential if the graph is a chain, functional otherwise. -/
  | auto
deriving DecidableEq, Repr

/-- Where a program imports Keras from. -/
inductive KerasImport where
  | standalone
  | tensorFlow
deriving DecidableEq, Repr

/-- The import statement. -/
def KerasImport.statement : KerasImport → String
  | standalone => "import keras"
  | tensorFlow => "from tensorflow import keras"

/-- What to generate. -/
structure Options where
  target : Target := .keras
  style : Style := .functional
  kerasImport : KerasImport := .standalone
  functionName : Option String := none
deriving DecidableEq, Repr

namespace Options

/-- The name of the generated function when no other name is given. -/
def defaultName : Target → String
  | .keras => "build_model"
  | .tensorFlowJs => "createModel"

/-- The name of the generated function. -/
def name (o : Options) : String := o.functionName.getD (defaultName o.target)

end Options

end LayerGraph
