import LayerGraph.Json.Reader
import LayerGraph.Node
import LayerGraph.Text.Join

/-! # Errors

Everything that can keep a graph from being compiled.  Errors are causes; their wording is in
`GraphFault.reason`, `ChainFault.reason` and `CompileError.message` alone. -/

namespace LayerGraph

/-- Node ids with commas between them. -/
def NodeId.listText (ids : List NodeId) : String := Text.join ", " (ids.map NodeId.text)

/-- The role as it is named to users. -/
def Role.label : Role → String
  | input => "Input"
  | output => "Output"
  | layer => "Layer"

/-- What is wrong with a node. -/
inductive GraphFault where
  /-- One of its edges leads to an id that nothing declares. -/
  | undeclaredEdge (edge : NodeId)
  | inputWithSources
  | outputWithTargets
  /-- It takes the result of an output. -/
  | outputAsSource (source : NodeId)
  /-- It is a layer of a request, and nothing says of what kind. -/
  | missingDescriptor
  /-- It was asked for, and the graph does not have it. -/
  | undeclared
  /-- It was listed as an input or output, and the graph does not have it. -/
  | undeclaredEndpoint
  /-- It was listed as an input or output, and is something else. -/
  | endpointKind (role : Role) (kind : String)
  | outputWithoutSources
  /-- It is an output with a source that no input leads to. -/
  | unconnectedSource (source : NodeId)
deriving DecidableEq, Repr

/-- The fault in words. -/
def GraphFault.reason : GraphFault → String
  | undeclaredEdge edge => "references undeclared node '" ++ edge.text ++ "'"
  | inputWithSources => "input node cannot have sources"
  | outputWithTargets => "output node cannot have targets"
  | outputAsSource source => "uses output node '" ++ source.text ++ "' as a source"
  | missingDescriptor => "layer has no kerasLayer descriptor"
  | undeclared => "node is not declared in the graph"
  | undeclaredEndpoint => "listed as graph endpoint but not declared"
  | endpointKind role kind => "listed as " ++ role.label ++ " but has kind '" ++ kind ++ "'"
  | outputWithoutSources => "output node has no sources"
  | unconnectedSource source => "source '" ++ source.text ++ "' is not connected to any input"

/-- Why a graph is not a chain. -/
inductive ChainFault where
  | severalInputs
  | severalOutputs
  /-- A node has the wrong number of sources or targets for its role. -/
  | degree (expectedSources expectedTargets sources targets : Nat)
  | noLayers
deriving DecidableEq, Repr

/-- The fault in words. -/
def ChainFault.reason : ChainFault → String
  | severalInputs => "graph has several inputs"
  | severalOutputs => "graph has several outputs"
  | degree expectedSources expectedTargets sources targets =>
    "expected " ++ Nat.repr expectedSources ++ " source(s) and " ++ Nat.repr expectedTargets
      ++ " target(s), found " ++ Nat.repr sources ++ " and " ++ Nat.repr targets
  | noLayers => "no layers between input and output"

/-- Why nothing was compiled. -/
inductive CompileError where
  | malformedGraph (node : NodeId) (fault : GraphFault)
  /-- Some nodes can never be placed.  `blockedBy` are the sources that they wait for in vain,
      because no input leads to them. -/
  | cyclicGraph (nodes blockedBy : List NodeId)
  | noInput
  | noOutput
  | notSequential (node : NodeId) (fault : ChainFault)
  /-- The text of a request could not be read. -/
  | invalidPayload (fault : Json.Fault)
deriving DecidableEq, Repr

/-- The kind of a reading fault in words. -/
def Json.Fault.reason : Json.Fault → String
  | truncated => "the text ends too early"
  | malformed => "the text is not well-formed"
  | mismatched => "the text holds a value of the wrong type"

/-- The error as it is shown to users. -/
def CompileError.message : CompileError → String
  | malformedGraph node fault =>
    "Malformed graph at node '" ++ node.text ++ "': " ++ fault.reason
  | cyclicGraph nodes blockedBy =>
    "Cyclic graph: nodes [" ++ NodeId.listText nodes ++ "] can never be scheduled"
      ++ if blockedBy.isEmpty then ""
        else " (waiting on nodes unreachable from any input: [" ++ NodeId.listText blockedBy ++ "])"
  | noInput => "Graph has no Input node"
  | noOutput => "Graph has no Output node"
  | notSequential node fault =>
    "Graph is not a sequential chain at node '" ++ node.text ++ "': " ++ fault.reason
  | invalidPayload fault => "Invalid graph payload: " ++ fault.reason

end LayerGraph
