import LayerGraph.Graph

/-! # Well-formed graphs

What everything that works on a graph takes for granted: edges stand in the lists of both their
ends equally often, they lead only to declared nodes, and inputs and outputs are at the ends of the
graph.

`Feeds` is the edge relation, read off the source lists alone.  In a well-formed graph the target
lists hold the same edges (`mem_targetsOf`). -/

namespace LayerGraph.Graph

/-- Whether an id names a node of a role. -/
def hasRole (g : Graph) (role : Role) (id : NodeId) : Bool :=
  (g.get? id).any fun n => n.role = role

/-- Whether an id names an input. -/
def isInput (g : Graph) (id : NodeId) : Bool := g.hasRole .input id

/-- The node `t` takes the result of the node `s`. -/
def Feeds (g : Graph) (s t : NodeId) : Prop := s ∈ g.sourcesOf t

/-- The edges of the graph agree with each other and with the roles of its nodes, and `inputs` and
    `outputs` list the nodes of these roles. -/
structure WellFormed (g : Graph) : Prop where
  idsNodup : g.ids.Nodup
  sourcesDeclared : ∀ id, ∀ s ∈ g.sourcesOf id, s ∈ g.ids
  targetsDeclared : ∀ id, ∀ t ∈ g.targetsOf id, t ∈ g.ids
  /-- Every edge stands in the lists of both its ends, and equally often. -/
  mirrored : ∀ s t, (g.targetsOf s).count t = (g.sourcesOf t).count s
  inputSources : ∀ id, g.isInput id = true → g.sourcesOf id = []
  outputTargets : ∀ id, g.isOutput id = true → g.targetsOf id = []
  outputParameters : ∀ id n, g.get? id = some n → n.isOutput = true → n.parameters = ∅
  outputNoSource : ∀ id, ∀ s ∈ g.sourcesOf id, g.isOutput s = false
  inputsNodup : g.inputs.Nodup
  memInputs : ∀ id, id ∈ g.inputs ↔ g.isInput id = true
  outputsNodup : g.outputs.Nodup
  memOutputs : ∀ id, id ∈ g.outputs ↔ g.isOutput id = true

/-! ## Nodes and their lists -/

/-- The ids of a graph are those that name a node. -/
theorem mem_ids_iff (g : Graph) (id : NodeId) : id ∈ g.ids ↔ ∃ n, g.get? id = some n := by
  rw [ids, OrderedMap.mem_keys_iff, Option.isSome_iff_exists]
  rfl

theorem sourcesOf_of_get? {g : Graph} {id : NodeId} {n : Node} (h : g.get? id = some n) :
    g.sourcesOf id = n.sources := by
  simp [sourcesOf, h]

theorem targetsOf_of_get? {g : Graph} {id : NodeId} {n : Node} (h : g.get? id = some n) :
    g.targetsOf id = n.targets := by
  simp [targetsOf, h]

theorem isOutput_of_get? {g : Graph} {id : NodeId} {n : Node} (h : g.get? id = some n) :
    g.isOutput id = n.isOutput := by
  simp [isOutput, h]

/-- Looking a node up succeeds if there is one, and gives it. -/
theorem node_eq_ok_iff {g : Graph} {id : NodeId} {n : Node} :
    g.node id = .ok n ↔ g.get? id = some n := by
  rw [node]
  cases g.get? id with
  | none => simp
  | some n' => simp

theorem node_of_get? {g : Graph} {id : NodeId} {n : Node} (h : g.get? id = some n) :
    g.node id = .ok n :=
  node_eq_ok_iff.mpr h

/-- Looking a node up succeeds for declared ids. -/
theorem exists_node_iff {g : Graph} {id : NodeId} : (∃ n, g.node id = .ok n) ↔ id ∈ g.ids := by
  simp only [node_eq_ok_iff, mem_ids_iff]

/-- A node that has a source is declared. -/
theorem mem_ids_of_mem_sourcesOf {g : Graph} {s id : NodeId} (h : s ∈ g.sourcesOf id) :
    id ∈ g.ids := by
  rw [mem_ids_iff]
  cases hn : g.get? id with
  -- An id that is not declared has no sources.
  | none => simp [sourcesOf, hn] at h
  | some n => exact ⟨n, rfl⟩

/-- A node that has a role is declared. -/
theorem mem_ids_of_hasRole {g : Graph} {role : Role} {id : NodeId}
    (h : g.hasRole role id = true) : id ∈ g.ids := by
  rw [mem_ids_iff]
  cases hn : g.get? id with
  | none => simp [hasRole, hn] at h
  | some n => exact ⟨n, rfl⟩

/-- No node is both an input and an output. -/
theorem isOutput_of_isInput {g : Graph} {id : NodeId} (h : g.isInput id = true) :
    g.isOutput id = false := by
  obtain ⟨n, hn⟩ := (g.mem_ids_iff id).mp (mem_ids_of_hasRole h)
  have hrole : n.role = .input := by simpa [isInput, hasRole, hn] using h
  simp [isOutput_of_get? hn, Node.isOutput, hrole]

namespace WellFormed

variable {g : Graph}

/-- The targets of a node are the nodes that have it among their sources. -/
theorem mem_targetsOf (hg : g.WellFormed) {s t : NodeId} : t ∈ g.targetsOf s ↔ g.Feeds s t := by
  rw [Feeds, ← List.count_pos_iff, ← List.count_pos_iff, hg.mirrored]

/-- The inputs are declared, … -/
theorem mem_ids_of_mem_inputs (hg : g.WellFormed) {id : NodeId} (h : id ∈ g.inputs) :
    id ∈ g.ids :=
  mem_ids_of_hasRole ((hg.memInputs id).mp h)

/-- The inputs are different from each other. -/
theorem input_of_split (hg : g.WellFormed) {before after : List NodeId} {input : NodeId}
    (h : g.inputs = before ++ input :: after) : g.isInput input = true ∧ input ∉ before := by
  constructor
  · rw [← hg.memInputs, h]
    exact List.mem_append_right _ List.mem_cons_self
  · intro hmem
    exact (List.nodup_append.mp (h ▸ hg.inputsNodup)).2.2 input hmem input List.mem_cons_self rfl

/-- … and so are the outputs. -/
theorem mem_ids_of_mem_outputs (hg : g.WellFormed) {id : NodeId} (h : id ∈ g.outputs) :
    id ∈ g.ids :=
  @mem_ids_of_hasRole g .output id ((hg.memOutputs id).mp h)

/-- What takes a result is not an input. -/
theorem isInput_of_feeds (hg : g.WellFormed) {s t : NodeId} (h : g.Feeds s t) :
    g.isInput t = false := by
  rw [Bool.eq_false_iff]
  intro ht
  -- Nothing leads into an input.
  rw [Feeds, hg.inputSources t ht] at h
  cases h

end WellFormed

end LayerGraph.Graph
