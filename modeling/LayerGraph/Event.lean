import LayerGraph.Error
import LayerGraph.Options

/-! # Events

What a compilation reports while it runs.  Like errors, events are data, and their wording is in
`Event.message` alone. -/

namespace LayerGraph

/-- How much an event matters. -/
inductive Level where
  | debug
  | info
  | warn
deriving DecidableEq, Repr

/-- Something that happened during a compilation. -/
inductive Event where
  /-- A request with so many layers and groups at its top was taken up. -/
  | requestReceived (layers : Nat)
  /-- A group was replaced by its children. -/
  | groupExpanded (id : NodeId) (children : Nat)
  /-- A later declaration replaced an earlier one of the same node. -/
  | redeclared (id : NodeId)
  /-- An output was declared with parameters, which mean nothing. -/
  | parametersIgnored (id : NodeId) (count : Nat)
  /-- The declared targets of a node are not the nodes that take its result. -/
  | targetsReplaced (id : NodeId) (declared used : List NodeId)
  | graphBuilt (nodes inputs outputs : Nat)
  | compilationStarted (nodes inputs outputs : Nat)
  | schedulingStarted
  | outputReached (id : NodeId)
  /-- A node got the next position in the order; positions count from zero. -/
  | nodePlaced (position : Nat) (id : NodeId) (kind : String)
  /-- So many nodes are not in the order because no input leads to them. -/
  | nodesSkipped (count : Nat)
  | scheduled (placed total : Nat)
  | orderReady (count : Nat)
  | generationStarted (target : Target)
  | sequentialChosen
  | functionalChosen (reason : CompileError)
  /-- A statement was added to the program. -/
  | statementWritten (statement : String)
  | generationFinished (bytes : Nat)
deriving DecidableEq, Repr

/-- The target as it is named in events. -/
def Target.label : Target → String
  | keras => "Keras"
  | tensorFlowJs => "Tfjs"

/-- The sizes of a graph in words. -/
def sizesText (nodes inputs outputs : Nat) : String :=
  Nat.repr nodes ++ " nodes, " ++ Nat.repr inputs ++ " inputs, " ++ Nat.repr outputs ++ " outputs"

namespace Event

/-- How much the event matters. -/
def level : Event → Level
  | targetsReplaced .. => .warn
  | requestReceived .. | compilationStarted .. | schedulingStarted | orderReady .. => .info
  | generationStarted .. | sequentialChosen | generationFinished .. => .info
  | _ => .debug

/-- The event in words. -/
def message : Event → String
  | requestReceived layers =>
    "[KGC] Normalizing request (" ++ Nat.repr layers ++ " top-level layers)"
  | groupExpanded id children =>
    "[KGC] Expanding group layer " ++ id.text ++ " (" ++ Nat.repr children ++ " children)"
  | redeclared id => "[KGC] Node " ++ id.text ++ " redeclared, keeping latest definition"
  | parametersIgnored id count =>
    "[KGC] Ignoring " ++ Nat.repr count ++ " parameters on output node " ++ id.text
  | targetsReplaced id declared used =>
    "[KGC] Node " ++ id.text ++ " declares targets [" ++ NodeId.listText declared
      ++ "] inconsistent with its consumers, using [" ++ NodeId.listText used ++ "]"
  | graphBuilt nodes inputs outputs =>
    "[KGC] Graph normalized: " ++ sizesText nodes inputs outputs
  | compilationStarted nodes inputs outputs =>
    "[KGC] Starting compilation (" ++ sizesText nodes inputs outputs ++ ")"
  | schedulingStarted => "[KGC] Phase 1: Scheduling emission order..."
  | outputReached id => "[SCHED] Reached output " ++ id.text
  | nodePlaced position id kind =>
    "[SCHED] #" ++ Nat.repr position ++ " -> " ++ id.text ++ " (" ++ kind ++ ")"
  | nodesSkipped count =>
    "[SCHED] " ++ Nat.repr count ++ " nodes unreachable from any input were skipped"
  | scheduled placed total =>
    "[SCHED] Scheduled " ++ Nat.repr placed ++ " of " ++ Nat.repr total ++ " nodes"
  | orderReady count => "[KGC]   - " ++ Nat.repr count ++ " nodes to emit"
  | generationStarted target => "[KGC] Phase 2: Generating " ++ target.label ++ " code..."
  | sequentialChosen => "[KGC]   - graph is a single chain, using sequential model"
  | functionalChosen reason => "[KGC]   - using functional model: " ++ reason.message
  | statementWritten statement => "[CODEGEN] " ++ statement
  | generationFinished bytes =>
    "[KGC] Code generation complete (" ++ Nat.repr bytes ++ " bytes)"

end Event

end LayerGraph
