import LayerGraph.Graph

/-! # Chains

A graph is a chain if it has one input, one output and some layers, and every node has exactly the
edges that its place in a chain asks for. -/

namespace LayerGraph

/-- The layers between an input and an output, in order. -/
structure Chain where
  input : NodeId
  layers : List NodeId
deriving DecidableEq, Repr

/-- The shape of an input that says nothing about its shape. -/
def defaultShape : Value := .seq [.ofInt 100, .ofInt 100]

/-- The shape of the input of a chain. -/
def Chain.inputShape (c : Chain) (g : Graph) : Except CompileError Value := do
  let n ← g.node c.input
  return (n.parameters.get? "shape").getD defaultShape

/-- The numbers of sources and targets that a node of a chain has. -/
def Role.chainDegrees : Role → Nat × Nat
  | input => (0, 1)
  | output => (1, 0)
  | layer => (1, 1)

/-- What keeps a node from standing in a chain. -/
def Node.chainFault? (n : Node) : Option ChainFault :=
  let (sources, targets) := n.role.chainDegrees
  if n.sources.length = sources ∧ n.targets.length = targets then none
  else some (.degree sources targets n.sources.length n.targets.length)

namespace Graph

/-- The only input of a graph. -/
def onlyInput (g : Graph) : Except CompileError NodeId :=
  match g.inputs with
  | [] => .error .noInput
  | [input] => .ok input
  | _ :: extra :: _ => .error (.notSequential extra .severalInputs)

/-- Refuses a graph that has no or several outputs. -/
def checkOnlyOutput (g : Graph) : Except CompileError Unit :=
  match g.outputs with
  | [] => .error .noOutput
  | [_] => .ok ()
  | _ :: extra :: _ => .error (.notSequential extra .severalOutputs)

/-- Refuses a graph with a node that cannot stand in a chain. -/
def checkDegrees (g : Graph) : Except CompileError Unit :=
  match g.nodes.entries.findSome? fun e => e.2.chainFault?.map (.notSequential e.1) with
  | some error => .error error
  | none => .ok ()

/-- The graph as a chain, with its layers in the given order. -/
def chain (g : Graph) (order : List NodeId) : Except CompileError Chain := do
  let input ← g.onlyInput
  g.checkOnlyOutput
  g.checkDegrees
  let layers := order.filter (· ≠ input)
  if layers.isEmpty then throw (.notSequential input .noLayers)
  else return ⟨input, layers⟩

end Graph

end LayerGraph
