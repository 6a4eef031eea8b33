import LayerGraph.Graph.Build
import LayerGraph.Request

/-! # Graphs from requests

The groups of a request are opened until only layers are left, which then describe the nodes of
the graph. -/

namespace LayerGraph

/-- The node that a layer without children describes. -/
def Layer.description (l : Layer) : Except CompileError Description :=
  match l.descriptor with
  | some d => .ok ⟨l.id, d.name, d.parameters, l.sources, some l.targets⟩
  | none => .error (.malformedGraph l.id .missingDescriptor)

mutual
/-- The nodes that a layer describes.  A group describes those of its children. -/
def Layer.descriptions : Layer → Traced (List Description)
  | ⟨id, _, _, _, some children⟩ => do
    Traced.report [.groupExpanded id children.length]
    Layer.descriptionsAll children
  | ⟨id, descriptor, sources, targets, none⟩ => do
    let d ← Layer.description ⟨id, descriptor, sources, targets, none⟩
    return [d]

/-- The nodes that several layers describe. -/
def Layer.descriptionsAll : List Layer → Traced (List Description)
  | [] => return []
  | l :: ls => do
    let first ← l.descriptions
    let others ← Layer.descriptionsAll ls
    return first ++ others
end

/-- The nodes that a request describes. -/
def Request.descriptions (r : Request) : Traced (List Description) :=
  Layer.descriptionsAll r.layers

/-- Builds the graph of a request. -/
def Graph.ofRequest (r : Request) : Traced Graph := do
  let ds ← r.descriptions
  Graph.build ds r.inputs r.outputs

end LayerGraph
