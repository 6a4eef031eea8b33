import LayerGraph.Error

/-! # Graphs

A graph of nodes in the order of their declaration, with its inputs and outputs in the order in
which the model takes and returns them.  Edges stand in the lists of both their ends: a source names
its targets, a target its sources. -/

namespace LayerGraph

/-- A graph of layers between inputs and outputs. -/
structure Graph where
  nodes : OrderedMap NodeId Node
  inputs : List NodeId
  outputs : List NodeId
deriving DecidableEq, Repr

namespace Graph

/-- The ids of the nodes, in the order of declaration. -/
def ids (g : Graph) : List NodeId := g.nodes.keys

/-- The number of nodes. -/
def size (g : Graph) : Nat := g.nodes.size

/-- The node with an id. -/
def get? (g : Graph) (id : NodeId) : Option Node := g.nodes.get? id

/-- Whether the graph has a node with an id. -/
def contains (g : Graph) (id : NodeId) : Bool := g.nodes.contains id

/-- The node with an id, which the graph should have. -/
def node (g : Graph) (id : NodeId) : Except CompileError Node :=
  match g.get? id with
  | some n => .ok n
  | none => .error (.malformedGraph id .undeclared)

/-- The nodes that take the result of a node. -/
def targetsOf (g : Graph) (id : NodeId) : List NodeId := ((g.get? id).map Node.targets).getD []

/-- The nodes whose results a node takes. -/
def sourcesOf (g : Graph) (id : NodeId) : List NodeId := ((g.get? id).map Node.sources).getD []

/-- Whether an id names an output. -/
def isOutput (g : Graph) (id : NodeId) : Bool := (g.get? id).any Node.isOutput

end Graph

end LayerGraph
