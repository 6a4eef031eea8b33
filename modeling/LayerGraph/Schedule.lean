import LayerGraph.Schedule.Reach
import LayerGraph.Schedule.Walk
import LayerGraph.Traced

/-! # Schedules

A schedule lists the inputs and layers of a graph so that every node comes after its sources.
Nodes that no input leads to are left out.  If an input leads to a node that can never be placed,
because it waits for itself or for a node without inputs, there is no schedule. -/

namespace LayerGraph.Graph

/-- Reports the nodes that were placed, of which `position` came before. -/
def placements (g : Graph) (position : Nat) : List NodeId → List Event
  | [] => []
  | id :: rest =>
    match g.get? id with
    | some n =>
      if n.isOutput then .outputReached id :: g.placements position rest
      else .nodePlaced position id n.kind :: g.placements (position + 1) rest
    | none => g.placements position rest

/-- The nodes that a walk should have placed and has not, in the order of declaration. -/
def stalled (g : Graph) (reachable placed : List NodeId) : List NodeId :=
  g.ids.filter fun id => id ∈ reachable ∧ id ∉ placed

/-- The sources of some nodes that no input leads to, each once. -/
def blocking (g : Graph) (reachable nodes : List NodeId) : Except CompileError (List NodeId) := do
  let sources ← nodes.mapM fun id => return (← g.node id).sources
  return (sources.flatten.filter fun id => id ∉ reachable).eraseDups

/-- Reports how many nodes were skipped, if any were, and how many are in the order. -/
def summary (g : Graph) (placed order : List NodeId) : List Event :=
  let skipped := g.size - placed.length
  (if skipped = 0 then [] else [.nodesSkipped skipped]) ++ [.scheduled order.length g.size]

/-- The order in which to emit the nodes of a graph. -/
def schedule (g : Graph) : Traced (List NodeId) :=
  if g.inputs.isEmpty then throw .noInput
  else do
    let walk ← g.walk
    Traced.report (g.placements 0 walk.placed)
    let reachable ← g.reachable
    let stalled := g.stalled reachable walk.placed
    if stalled.isEmpty then
      let order := walk.placed.filter fun id => !g.isOutput id
      Traced.report (g.summary walk.placed order)
      return order
    else throw (.cyclicGraph stalled (← g.blocking reachable stalled))

end LayerGraph.Graph
