import LayerGraph.Value

/-! # Nodes

A node is a layer of a network, one of its inputs or one of its outputs.  Its kind decides which of
these it is.  A `Description` is a node as somebody declares it; a `Node` is a node of a graph, with
its edges at both ends. -/

namespace LayerGraph

/-- The name of a node, unique in its graph. -/
structure NodeId where
  text : String
deriving DecidableEq, Repr, Inhabited

/-- The id that a number stands for is the decimal text of the number. -/
def NodeId.ofNumber (n : Number) : NodeId := ⟨n.text⟩

/-- The id that a machine integer stands for is its decimal text. -/
def NodeId.ofInt64 (n : Int64) : NodeId := ⟨toString n⟩

/-- Ids are ordered by their texts. -/
def NodeId.le (a b : NodeId) : Bool := a.text ≤ b.text

/-- The part that a node plays in its graph. -/
inductive Role where
  | input
  | output
  | layer
deriving DecidableEq, Repr

/-- Two kinds are reserved for the ends of a graph; every other kind is the name of a layer. -/
def Role.ofKind (kind : String) : Role :=
  if kind = "Input" then .input else if kind = "Output" then .output else .layer

/-- A node as it is declared. -/
structure Description where
  id : NodeId
  kind : String
  parameters : Parameters
  /-- The nodes whose results this node takes, in the order in which it takes them. -/
  sources : List NodeId
  /-- The nodes that are said to take the result of this node, if anything is said about it. -/
  targets : Option (List NodeId)
deriving DecidableEq, Repr

/-- The part that a declared node plays. -/
def Description.role (d : Description) : Role := Role.ofKind d.kind

/-- A node of a graph. -/
structure Node where
  kind : String
  parameters : Parameters
  sources : List NodeId
  targets : List NodeId
deriving DecidableEq, Repr

namespace Node

/-- The part that a node plays. -/
def role (n : Node) : Role := Role.ofKind n.kind

/-- Whether the node is an input of its graph. -/
def isInput (n : Node) : Bool := n.role = .input

/-- Whether the node is an output of its graph. -/
def isOutput (n : Node) : Bool := n.role = .output

/-- The node with other targets. -/
def withTargets (n : Node) (targets : List NodeId) : Node :=
  ⟨n.kind, n.parameters, n.sources, targets⟩

end Node

end LayerGraph
