import LayerGraph.Proofs.Consumers

/-! # Building a graph again

The nodes of a graph can be read as descriptions, with their targets as declared targets.  A graph
that was built is built from them again, unchanged: it keeps all rules, its targets are recognised
as the consumers of their nodes, and its inputs and outputs can be listed as they are.  So what is
built is a normal form.

## Key results

- `Graph.ofList_descriptions`: what the nodes of a graph declare
- `Graph.WellFormed.check_declarations`, `Graph.WellFormed.nodes_declarations`: the nodes of a
  well-formed graph keep the rules, and are declared as what they are
- `Graph.listedFirst_self`: inputs and outputs that are all listed stay in their order
- `Graph.build_idempotent`: a built graph is built again from its nodes -/

namespace LayerGraph

/-- The description of a node of a graph, with all its edges. -/
def Node.description (id : NodeId) (n : Node) : Description :=
  ⟨id, n.kind, n.parameters, n.sources, some n.targets⟩

/-- The nodes of a graph as descriptions, in the order of declaration. -/
def Graph.descriptions (g : Graph) : List Description :=
  g.nodes.entries.map fun e => e.2.description e.1

namespace Graph

/-! ## The declarations of a graph -/

/-- What the descriptions of the nodes declare. -/
def declarations (g : Graph) : Declarations := g.nodes.mapValues Node.description

/-- Describing the nodes of a graph gives its declarations back. -/
theorem ofList_descriptions (g : Graph) : Declarations.ofList g.descriptions = g.declarations := by
  have hentries : g.descriptions.map (fun d => (d.id, d)) = g.declarations.entries := by
    rw [descriptions, List.map_map]
    rfl
  rw [Declarations.ofList, hentries, OrderedMap.ofList_entries]

/-- Each node is described once. -/
private theorem map_id_descriptions (g : Graph) : g.descriptions.map Description.id = g.ids := by
  rw [descriptions, List.map_map]
  rfl

/-- A node is declared as it is. -/
private theorem get?_declarations (g : Graph) (id : NodeId) :
    g.declarations.get? id = (g.get? id).map (Node.description id) :=
  OrderedMap.get?_mapValues g.nodes Node.description id

private theorem get?_of_mem_declarations {g : Graph} {e : NodeId × Description}
    (he : e ∈ g.declarations.entries) : ∃ n, g.get? e.1 = some n ∧ e.2 = n.description e.1 := by
  have hget := (g.declarations.get?_eq_some_iff e.1 e.2).mpr he
  rw [get?_declarations] at hget
  obtain ⟨n, hn, heq⟩ := Option.map_eq_some_iff.mp hget
  exact ⟨n, hn, heq.symm⟩

/-- The declared ids are those of the graph. -/
private theorem keys_declarations (g : Graph) : g.declarations.keys = g.ids :=
  OrderedMap.keys_mapValues g.nodes Node.description

/-- Nodes are declared with their sources, … -/
private theorem sourcesOf_declarations (g : Graph) (id : NodeId) :
    g.declarations.sourcesOf id = g.sourcesOf id := by
  rw [Declarations.sourcesOf, get?_declarations, Option.map_map]
  rfl

/-- … and in their roles. -/
private theorem isOutput_declarations (g : Graph) (id : NodeId) :
    g.declarations.isOutput id = g.isOutput id := by
  rw [Declarations.isOutput, get?_declarations, Option.any_map]
  rfl

namespace WellFormed

variable {g : Graph}

/-- A well-formed graph keeps the rules. -/
theorem check_declarations (hg : g.WellFormed) : g.declarations.check = .ok () := by
  rw [Declarations.check_eq_ok_iff]
  intro id d hd
  rw [get?_declarations] at hd
  obtain ⟨n, hn, rfl⟩ := Option.map_eq_some_iff.mp hd
  rw [Declarations.fault?_eq_none_iff, keys_declarations]
  refine ⟨?_, ?_, ?_, ?_⟩
  · -- Edges lead to nodes of the graph.
    intro e he
    rcases List.mem_append.mp he with hs | ht
    · exact hg.sourcesDeclared id e (sourcesOf_of_get? hn ▸ hs)
    · exact hg.targetsDeclared id e (targetsOf_of_get? hn ▸ ht)
  · -- Inputs have no sources.
    intro hrole
    have hinput : g.isInput id = true := by
      rw [isInput, hasRole, hn]
      exact decide_eq_true hrole
    show n.sources = []
    rw [← sourcesOf_of_get? hn, hg.inputSources id hinput]
  · -- Outputs have no targets.
    intro hrole
    have houtput : g.isOutput id = true := by
      rw [isOutput_of_get? hn]
      exact decide_eq_true hrole
    show n.targets = []
    rw [← targetsOf_of_get? hn, hg.outputTargets id houtput]
  · -- No source is an output.
    intro s hs
    rw [isOutput_declarations]
    exact hg.outputNoSource id s (sourcesOf_of_get? hn ▸ hs)

/-- The targets of a node are its consumers in some order. -/
theorem targets_perm (hg : g.WellFormed) {id : NodeId} {n : Node} (hn : g.get? id = some n) :
    n.targets.Perm (g.declarations.consumers id) := by
  -- Both lists hold a node as often as it has this one among its sources.
  rw [List.perm_iff_count]
  intro t
  rw [Declarations.count_consumers, sourcesOf_declarations, ← hg.mirrored, targetsOf_of_get? hn]

/-- Every node is declared as what it is. -/
theorem node_declarations (hg : g.WellFormed) {id : NodeId} {n : Node} (hn : g.get? id = some n) :
    g.declarations.node id (n.description id) = n := by
  -- Outputs lose their parameters, but those of a graph have none.
  have hparameters : (if n.role = .output then ∅ else n.parameters) = n.parameters := by
    split
    · next hrole => exact (hg.outputParameters id n hn (decide_eq_true hrole)).symm
    · rfl
  have htargets : g.declarations.targets id (n.description id) = n.targets :=
    (Declarations.targets_of_perm rfl (hg.targets_perm hn)).1
  rw [Declarations.node, htargets]
  show Node.mk n.kind (if n.role = .output then ∅ else n.parameters) n.sources n.targets = n
  rw [hparameters]

/-- Outputs have no parameters left that could be ignored. -/
theorem ignoredParameters_declarations (hg : g.WellFormed) :
    g.declarations.ignoredParameters = [] := by
  rw [Declarations.ignoredParameters, List.filterMap_eq_nil_iff]
  intro e he
  obtain ⟨n, hn, hdescription⟩ := get?_of_mem_declarations he
  rw [if_neg]
  rintro ⟨hrole, hsize⟩
  rw [hdescription] at hrole hsize
  apply hsize
  show n.parameters.size = 0
  rw [hg.outputParameters e.1 n hn (decide_eq_true hrole)]
  rfl

/-- The targets are what they should be, so none are replaced. -/
theorem replacedTargets_declarations (hg : g.WellFormed) : g.declarations.replacedTargets = [] := by
  rw [Declarations.replacedTargets, List.filterMap_eq_nil_iff]
  intro e he
  obtain ⟨n, hn, hdescription⟩ := get?_of_mem_declarations he
  rw [hdescription]
  exact (Declarations.targets_of_perm rfl (hg.targets_perm hn)).2

/-- The nodes of a well-formed graph come back from its declarations. -/
theorem nodes_declarations (hg : g.WellFormed) : g.declarations.nodes = g.nodes := by
  apply OrderedMap.ext
  show (g.nodes.entries.map _).map _ = g.nodes.entries
  rw [List.map_map]
  conv_rhs => rw [← List.map_id g.nodes.entries]
  refine List.map_congr_left fun e he => ?_
  have hget : g.get? e.1 = some e.2 := (g.nodes.get?_eq_some_iff _ _).mpr he
  show (e.1, g.declarations.node e.1 (e.2.description e.1)) = e
  rw [hg.node_declarations hget]

end WellFormed

/-- All nodes of a role, listed once, stay in their order. -/
theorem listedFirst_self {g : Graph} {role : Role} {listed : List NodeId} (hnodup : listed.Nodup)
    (hmem : ∀ id, g.hasRole role id = true → id ∈ listed) :
    g.listedFirst role (some listed) = listed := by
  -- Nothing is left to come after the listed nodes.
  have hothers : (g.ids.filter fun id => g.hasRole role id ∧ id ∉ listed) = [] := by
    rw [List.filter_eq_nil_iff]
    intro id _ hid
    rw [decide_eq_true_eq] at hid
    exact hid.2 (hmem id hid.1)
  rw [listedFirst, Option.getD_some, hothers, List.eraseDups_of_nodup hnodup, List.append_nil]

/-! ## Building -/

/-- A well-formed graph is built again from its descriptions, … -/
private theorem WellFormed.build_descriptions {g : Graph} (hg : g.WellFormed) :
    (build g.descriptions (some g.inputs) (some g.outputs)).result = .ok g := by
  rw [build_eq_ok_iff, ofList_descriptions, hg.nodes_declarations]
  refine ⟨hg.check_declarations, rfl, ?_, ?_⟩
  · rw [endpoints_eq_ok_iff, Option.getD_some]
    refine ⟨fun id hid => (hg.memInputs id).mp hid, ?_⟩
    exact (listedFirst_self hg.inputsNodup fun id hid => (hg.memInputs id).mpr hid).symm
  · rw [endpoints_eq_ok_iff, Option.getD_some]
    refine ⟨fun id hid => (hg.memOutputs id).mp hid, ?_⟩
    exact (listedFirst_self hg.outputsNodup fun id hid => (hg.memOutputs id).mpr hid).symm

/-- … and there is nothing to report but that. -/
private theorem WellFormed.events_descriptions {g : Graph} (hg : g.WellFormed) :
    (build g.descriptions (some g.inputs) (some g.outputs)).events =
      [.graphBuilt g.size g.inputs.length g.outputs.length] := by
  have hrepeated : Declarations.repeated [] g.descriptions = [] := by
    apply Declarations.repeated_eq_nil
    · rw [map_id_descriptions]
      exact hg.idsNodup
    · simp
  rw [events_of_build hg.build_descriptions, ofList_descriptions, hrepeated,
    hg.ignoredParameters_declarations, hg.replacedTargets_declarations]
  rfl

/-- A built graph is built again from its own nodes, in their order and with their targets as
    declared targets, if its inputs and outputs are listed as they are.  Nothing but that is
    reported, so no targets are replaced. -/
theorem build_idempotent {g : Graph} (hg : g.Built) :
    (build g.descriptions (some g.inputs) (some g.outputs)).result = .ok g ∧
    (build g.descriptions (some g.inputs) (some g.outputs)).events =
      [.graphBuilt g.size g.inputs.length g.outputs.length] :=
  ⟨hg.wellFormed.build_descriptions, hg.wellFormed.events_descriptions⟩

/-- The graph of a request with a group. -/
theorem build_idempotent_group :
    ∃ g, (ofRequest groupRequest).result = .ok g ∧
      (build g.descriptions (some g.inputs) (some g.outputs)).result = .ok g ∧
      (build g.descriptions (some g.inputs) (some g.outputs)).events = [.graphBuilt 3 1 1] := by
  obtain ⟨g, hg, hsizes⟩ : ∃ g, (ofRequest groupRequest).result = .ok g ∧
      (g.size, g.inputs.length, g.outputs.length) = (3, 1, 1) := by
    rw [ofRequest, Traced.result_bind]
    simp only [build_result]
    exact ⟨_, rfl, rfl⟩
  obtain ⟨hsize, hins, houts⟩ : g.size = 3 ∧ g.inputs.length = 1 ∧ g.outputs.length = 1 := by
    simpa using hsizes
  obtain ⟨hresult, hevents⟩ := build_idempotent (.request groupRequest hg)
  rw [hsize, hins, houts] at hevents
  exact ⟨g, hg, hresult, hevents⟩

end Graph

end LayerGraph
