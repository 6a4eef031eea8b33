import LayerGraph.Node

/-! # Requests

A request holds a network as an editor draws it: layers with their edges at both ends, some of
them collected in groups.  Groups may hold groups.  What a group says about itself is of no
account; only the layers without children become nodes. -/

namespace LayerGraph

/-- What kind of layer a layer is. -/
structure Descriptor where
  name : String
  parameters : Parameters
deriving DecidableEq, Repr

/-- A layer or, if it has children, a group of layers. -/
structure Layer where
  id : NodeId
  descriptor : Option Descriptor
  sources : List NodeId
  targets : List NodeId
  children : Option (List Layer)

/-- A network with the order of its inputs and outputs, where this matters. -/
structure Request where
  layers : List Layer
  inputs : Option (List NodeId)
  outputs : Option (List NodeId)

mutual
/-- The layers without children inside a layer, from left to right. -/
def Layer.leaves : Layer → List Layer
  | ⟨_, _, _, _, some children⟩ => Layer.leavesAll children
  | ⟨id, descriptor, sources, targets, none⟩ => [⟨id, descriptor, sources, targets, none⟩]

/-- The layers without children inside several layers, from left to right. -/
def Layer.leavesAll : List Layer → List Layer
  | [] => []
  | l :: ls => l.leaves ++ Layer.leavesAll ls
end

end LayerGraph
