import LayerGraph.Proofs.Schedule

/-! # What a schedule depends on

Scheduling looks at the kinds and the edges of the nodes and at the order of the inputs.  Neither
parameters nor the order of the outputs matter to it, so two graphs that differ in nothing else are
walked through the same states.

## Key results

- `SameSkeleton.run_eq`: walks through both graphs go on alike
- `SameSkeleton.schedule_eq`: both graphs have the same schedule -/

namespace LayerGraph

/-- The node without its parameters. -/
def Node.bare (n : Node) : Node := ⟨n.kind, ∅, n.sources, n.targets⟩

namespace Graph

/-- The graphs have the same nodes in the same order, with the same kinds and edges, and the same
    inputs.  The parameters of the nodes and the order of the outputs are left open. -/
structure SameSkeleton (g g' : Graph) : Prop where
  nodes : g.nodes.mapValues (fun _ => Node.bare) = g'.nodes.mapValues fun _ => Node.bare
  inputs : g.inputs = g'.inputs

namespace SameSkeleton

variable {g g' : Graph}

/-- Graphs with the same skeleton have the same nodes, … -/
theorem ids_eq (h : g.SameSkeleton g') : g.ids = g'.ids := by
  have hkeys := congrArg OrderedMap.keys h.nodes
  rwa [OrderedMap.keys_mapValues, OrderedMap.keys_mapValues] at hkeys

private theorem size_eq (h : g.SameSkeleton g') : g.size = g'.size := by
  have hsize := congrArg OrderedMap.size h.nodes
  simpa [size, OrderedMap.size, OrderedMap.mapValues] using hsize

/-- What does not look at the parameters of a node is the same in both graphs. -/
theorem map_get? (h : g.SameSkeleton g') {α : Type} {f : Node → α} (hf : ∀ n, f n.bare = f n)
    (id : NodeId) : (g.get? id).map f = (g'.get? id).map f := by
  have hget := congrArg (fun nodes => (nodes.get? id).map f) h.nodes
  simp only [OrderedMap.get?_mapValues, Option.map_map, Function.comp_def, hf] at hget
  exact hget

/-- … and the same outputs. -/
theorem isOutput_eq (h : g.SameSkeleton g') : g.isOutput = g'.isOutput := by
  funext id
  have hmap := congrArg (Option.any (· = true)) (h.map_get? (f := Node.isOutput) (fun _ => rfl) id)
  simpa [isOutput, Option.any_map, Function.comp_def] using hmap

/-! ## Walks -/

/-- The walks begin alike, … -/
private theorem initial_eq (h : g.SameSkeleton g') : Walk.initial g = Walk.initial g' := by
  have hpending := congrArg (fun nodes => nodes.mapValues fun _ n => n.sources.length) h.nodes
  have hcounts : ∀ nodes : OrderedMap NodeId Node,
      (nodes.mapValues fun _ => Node.bare).mapValues (fun _ n => n.sources.length) =
        nodes.mapValues fun _ n => n.sources.length := by
    intro nodes
    ext1
    simp [OrderedMap.mapValues, Node.bare]
  simp only [hcounts] at hpending
  rw [Walk.initial, Walk.initial, hpending]

/-- What is done with a node that is looked up is done in both graphs, if it does not look at the
    parameters. -/
theorem node_bind (h : g.SameSkeleton g') {α : Type} {f : Node → Except CompileError α}
    (hf : ∀ n, f n.bare = f n) (id : NodeId) : g.node id >>= f = g'.node id >>= f := by
  have hget := h.map_get? hf id
  rw [node, node]
  cases hn : g.get? id with
  | none =>
    rw [hn, Option.map_none, eq_comm, Option.map_eq_none_iff] at hget
    rw [hget]
  | some n =>
    rw [hn, Option.map_some, eq_comm, Option.map_eq_some_iff] at hget
    obtain ⟨n', hn', heq⟩ := hget
    rw [hn']
    exact heq.symm

/-- … place alike, … -/
private theorem place_eq (h : g.SameSkeleton g') (w : Walk) (id : NodeId) :
    w.place g id = w.place g' id :=
  h.node_bind (fun _ => rfl) id

/-- … go on alike, … -/
private theorem step_eq (h : g.SameSkeleton g') (w : Walk) : w.step g = w.step g' := by
  have hplace : Walk.place g = Walk.place g' := by
    funext w id
    exact h.place_eq w id
  rw [Walk.step, Walk.step, hplace]
  split
  · rfl
  · exact h.node_bind (fun _ => rfl) _

/-- … come to the same end … -/
theorem run_eq (h : g.SameSkeleton g') (w : Walk) : w.run g = w.run g' := by
  fun_induction Walk.run g w with
  | case1 w hover => rw [Walk.run_of_frames_eq_nil hover]
  | case2 w hopen e hstep => rw [Walk.run_of_frames_ne_nil hopen, ← h.step_eq, hstep]; rfl
  | case3 w hopen w' hstep ih => rw [Walk.run_of_frames_ne_nil hopen, ← h.step_eq, hstep, ih]; rfl

/-- … from the same input … -/
theorem enter_eq (h : g.SameSkeleton g') (w : Walk) (input : NodeId) :
    w.enter g input = w.enter g' input := by
  have hrun : Walk.run g = Walk.run g' := by
    funext w
    exact h.run_eq w
  rw [Walk.enter, Walk.enter, h.place_eq, hrun]

/-- … and from all of them. -/
theorem walk_eq (h : g.SameSkeleton g') : g.walk = g'.walk := by
  have henter : Walk.enter g = Walk.enter g' := by
    funext w input
    exact h.enter_eq w input
  rw [Graph.walk, Graph.walk, h.inputs, h.initial_eq, henter]

/-! ## Schedules -/

/-- The search for reachable nodes looks at edges only. -/
private theorem reachFrom_eq (h : g.SameSkeleton g') (seen queue : List NodeId) :
    g.reachFrom seen queue = g'.reachFrom seen queue := by
  fun_induction reachFrom g seen queue with
  | case1 seen => rw [reachFrom]
  | case2 seen id queue e hn =>
    rw [reachFrom_cons, ← h.node_bind (fun _ => rfl), hn]
    rfl
  | case3 seen id queue n hn fresh ih =>
    rw [ih, reachFrom_cons, ← h.node_bind (fun _ => rfl), hn]
    rfl

private theorem reachable_eq (h : g.SameSkeleton g') : g.reachable = g'.reachable := by
  rw [reachable, reachable, h.reachFrom_eq, h.inputs]

/-- The reports of what is placed name kinds, and these are part of the skeleton. -/
private theorem placements_eq (h : g.SameSkeleton g') (position : Nat) (placed : List NodeId) :
    g.placements position placed = g'.placements position placed := by
  induction placed generalizing position with
  | nil => rfl
  | cons id rest ih =>
    have hget := h.map_get? (f := fun n => (n.kind, n.isOutput)) (fun _ => rfl) id
    rw [placements, placements]
    cases hn : g.get? id <;> cases hn' : g'.get? id <;> simp_all

/-- Graphs with the same skeleton have the same schedule, and the same is reported on the way to
    it. -/
theorem schedule_eq (h : g.SameSkeleton g') : g.schedule = g'.schedule := by
  -- Every part of the schedule looks only at kinds and edges.
  have hplacements : g.placements = g'.placements := by
    funext position placed
    exact h.placements_eq position placed
  have hstalled : g.stalled = g'.stalled := by
    funext reachable placed
    rw [stalled, stalled, h.ids_eq]
  have hlookup : (fun id => do return (← g.node id).sources) =
      fun id => do return (← g'.node id).sources := by
    funext id
    exact h.node_bind (fun _ => rfl) id
  have hblocking : g.blocking = g'.blocking := by
    funext reachable nodes
    rw [blocking, blocking, hlookup]
  have hsummary : g.summary = g'.summary := by
    funext placed order
    rw [summary, summary, h.size_eq]
  rw [schedule, schedule, h.inputs, h.walk_eq, h.reachable_eq, hplacements, hstalled, hblocking,
    hsummary, h.isOutput_eq]

end SameSkeleton

end Graph

end LayerGraph
