import LayerGraph.Graph
import LayerGraph.Traced

/-! # Building graphs

A graph is built from descriptions of its nodes.  If a node is described more than once, the last
description counts and the first position does.  The descriptions are checked, and then

* outputs lose their parameters,
* the targets of every node become the nodes that take its result; a declared list of targets
  serves only to order them, and
* the inputs and outputs are put in the order that was asked for, the others after them. -/

namespace LayerGraph

/-- The description that counts for each node, in the order of the first descriptions. -/
abbrev Declarations := OrderedMap NodeId Description

namespace Declarations

/-- The declarations that a list of descriptions makes. -/
def ofList (ds : List Description) : Declarations :=
  OrderedMap.ofList (ds.map fun d => (d.id, d))

/-- The ids of the descriptions that come after another one of the same node; `seen` are the ids
    that came before. -/
def repeated (seen : List NodeId) : List Description → List NodeId
  | [] => []
  | d :: ds =>
    if d.id ∈ seen then d.id :: repeated seen ds else repeated (d.id :: seen) ds

/-- Whether an id is declared as an output. -/
def isOutput (decls : Declarations) (id : NodeId) : Bool :=
  (decls.get? id).any fun d => d.role = .output

/-- The first rule that a description breaks. -/
def fault? (decls : Declarations) (d : Description) : Option GraphFault :=
  match (d.sources ++ d.targets.getD []).find? fun edge => !decls.contains edge with
  | some edge => some (.undeclaredEdge edge)
  | none =>
    if d.role = .input ∧ d.sources ≠ [] then some .inputWithSources
    else if d.role = .output ∧ d.targets.getD [] ≠ [] then some .outputWithTargets
    else (d.sources.find? decls.isOutput).map .outputAsSource

/-- Refuses declarations of which one breaks a rule. -/
def check (decls : Declarations) : Except CompileError Unit :=
  match decls.entries.findSome? fun e => (decls.fault? e.2).map (.malformedGraph e.1) with
  | some error => .error error
  | none => .ok ()

/-- The node that a description declares, before any edge is added to its targets. -/
def unlinkedNode (d : Description) : Node where
  kind := d.kind
  parameters := if d.role = .output then ∅ else d.parameters
  sources := d.sources
  targets := []

/-- The nodes of the graph, before any edge is added to their targets. -/
def unlinked (decls : Declarations) : OrderedMap NodeId Node :=
  decls.mapValues fun _ d => unlinkedNode d

/-- The lists of targets that were declared, each with the node that it was declared for. -/
def declaredTargets (decls : Declarations) : List (NodeId × List NodeId) :=
  decls.entries.filterMap fun e => e.2.targets.map fun targets => (e.1, targets)

/-- Reports the outputs that lose parameters. -/
def ignoredParameters (decls : Declarations) : List Event :=
  decls.entries.filterMap fun e =>
    if e.2.role = .output ∧ e.2.parameters.size ≠ 0
    then some (.parametersIgnored e.1 e.2.parameters.size) else none

end Declarations

namespace Graph

/-- The edges that the sources of some nodes describe: the source, and the node that takes its
    result. -/
def edges (nodes : OrderedMap NodeId Node) : List (NodeId × NodeId) :=
  nodes.entries.flatMap fun e => e.2.sources.map fun source => (source, e.1)

/-- Adds an edge to the targets of its source. -/
def addEdge (nodes : OrderedMap NodeId Node) (edge : NodeId × NodeId) : OrderedMap NodeId Node :=
  nodes.modify edge.1 fun n => n.withTargets (n.targets ++ [edge.2])

/-- Gives a node the targets that were declared for it, if they are the targets that it has in
    another order.  Reports the declared targets if they are not. -/
def orderTargets (nodes : OrderedMap NodeId Node) (declared : NodeId × List NodeId) :
    Traced (OrderedMap NodeId Node) :=
  match nodes.get? declared.1 with
  | none => return nodes
  | some n =>
    if n.targets.mergeSort NodeId.le = declared.2.mergeSort NodeId.le then
      return nodes.modify declared.1 fun n => n.withTargets declared.2
    else do
      Traced.report [.targetsReplaced declared.1 declared.2 n.targets]
      return nodes

/-- Derives the targets of all nodes from the sources.  A declared list serves only to order
    them. -/
def mirrorTargets (nodes : OrderedMap NodeId Node) (declared : List (NodeId × List NodeId)) :
    Traced (OrderedMap NodeId Node) :=
  declared.foldlM orderTargets ((edges nodes).foldl addEdge nodes)

/-- What is wrong with an id that was listed among the nodes of a role. -/
def endpointFault? (nodes : OrderedMap NodeId Node) (role : Role) (id : NodeId) :
    Option GraphFault :=
  match nodes.get? id with
  | none => some .undeclaredEndpoint
  | some n => if n.role = role then none else some (.endpointKind role n.kind)

/-- The nodes of a role: first those that were listed, each once, and then the others in the order
    of declaration. -/
def endpoints (nodes : OrderedMap NodeId Node) (role : Role) (listed : Option (List NodeId)) :
    Except CompileError (List NodeId) :=
  let listed := listed.getD []
  match listed.findSome? fun id => (endpointFault? nodes role id).map (.malformedGraph id) with
  | some error => .error error
  | none =>
    let first := listed.eraseDups
    let others := nodes.entries.filter fun e => e.2.role = role ∧ e.1 ∉ first
    .ok (first ++ others.map Prod.fst)

/-- Builds a graph from descriptions of its nodes.  The inputs and outputs may be listed in the
    order that they should have. -/
def build (ds : List Description) (inputs outputs : Option (List NodeId)) : Traced Graph := do
  Traced.report ((Declarations.repeated [] ds).map .redeclared)
  let decls := Declarations.ofList ds
  decls.check
  -- From here on only the lists of inputs and outputs can be wrong.
  Traced.report decls.ignoredParameters
  let nodes ← mirrorTargets decls.unlinked decls.declaredTargets
  let inputs ← endpoints nodes .input inputs
  let outputs ← endpoints nodes .output outputs
  Traced.report [.graphBuilt nodes.size inputs.length outputs.length]
  return ⟨nodes, inputs, outputs⟩

/-- Builds a graph with its inputs and outputs in the order of declaration. -/
def ofDescriptions (ds : List Description) : Traced Graph := build ds none none

end Graph

end LayerGraph
