import LayerGraph.Program.Keras
import LayerGraph.Program.TensorFlowJs

/-! # Generating programs

A program is generated from a graph and an order of its nodes, or from a chain in it, by the
generator of the target. -/

namespace LayerGraph.Graph

/-- The statement of a node in a functional program; it is empty for an output. -/
def statement (g : Graph) (target : Target) (id : NodeId) : Except CompileError String :=
  match target with
  | .keras => Keras.statement g id
  | .tensorFlowJs => TensorFlowJs.statement g id

/-- Generates the functional program that emits the nodes in the given order. -/
def functional (g : Graph) (o : Options) (order : List NodeId) : Traced String :=
  match o.target with
  | .keras => Keras.functional g o order
  | .tensorFlowJs => TensorFlowJs.functional g o order

/-- Generates the sequential program of a chain. -/
def sequential (g : Graph) (o : Options) (c : Chain) : Traced String :=
  match o.target with
  | .keras => Keras.sequential g o c
  | .tensorFlowJs => liftM (TensorFlowJs.sequential g o c)

end LayerGraph.Graph
