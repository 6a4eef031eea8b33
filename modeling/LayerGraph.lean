import LayerGraph.Compile
import LayerGraph.Options.Json
import LayerGraph.Proofs.Build
import LayerGraph.Proofs.Reachable
import LayerGraph.Proofs.Walk
import LayerGraph.Proofs.Schedule
import LayerGraph.Proofs.Generate
import LayerGraph.Proofs.Scope
import LayerGraph.Proofs.Outcome
import LayerGraph.Proofs.Chain
import LayerGraph.Proofs.Styles
import LayerGraph.Proofs.Literal
import LayerGraph.Proofs.KerasText
import LayerGraph.Proofs.Reordering
import LayerGraph.Proofs.Targets
import LayerGraph.Proofs.Embedding
import LayerGraph.Proofs.Renaming
import LayerGraph.Proofs.Dangling
import LayerGraph.Proofs.Detached
import LayerGraph.Proofs.Diagnosis
import LayerGraph.Proofs.Leaves
import LayerGraph.Proofs.RequestText
import LayerGraph.Proofs.Redeclaration
import LayerGraph.Proofs.Acceptance
import LayerGraph.Proofs.Consumers
import LayerGraph.Proofs.Rebuilding
import LayerGraph.Proofs.Moments
import LayerGraph.Proofs.DepthFirst
import LayerGraph.Proofs.OutputOrder
import LayerGraph.Proofs.Stacks
import LayerGraph.Proofs.OptionKeys
import LayerGraph.Proofs.IntegerIds
