import LayerGraph.Proofs.Redeclaration

/-! # The order of targets

The targets of a node are the nodes that take its result.  Which these are follows from the sources;
a declared list of targets only puts them in another order, and only if it lists just these.  A list
that does not is replaced, and this is reported.  Nothing is reported of nodes that declare no list.

## Key results

- `Declarations.consumers_ofList`: the consumers of a node, by the descriptions that count
- `Declarations.targets_of_perm`, `Declarations.targets_of_not_perm`: when declared targets are
  kept, and when they are replaced
- `Declarations.filter_replacedTargets`: what is reported of the targets of one node
- `Graph.build_targets`: the targets of a node, and what is reported of them -/

namespace LayerGraph

/-- The nodes that take the result of a node, in the order of declaration, each as often as it has
    the node among the sources that count. -/
def consumersOf (ds : List Description) (id : NodeId) : List NodeId :=
  (effective ds).flatMap fun d => List.replicate (d.sources.count id) d.id

/-- Whether the event reports that the declared targets of a node have been replaced. -/
def Event.replacesTargetsOf (id : NodeId) : Event → Bool
  | .targetsReplaced id' _ _ => id' = id
  | _ => false

namespace Declarations

/-- Consumers are listed in the order of the effective descriptions. -/
theorem consumers_ofList (ds : List Description) (id : NodeId) :
    (ofList ds).consumers id = consumersOf ds id := by
  rw [consumers, entries_ofList, List.flatMap_map, consumersOf]
  congr 1
  funext d
  -- A node contributes its own id once for every occurrence of the source.
  show (d.sources.filter (· = id)).map (fun _ => d.id) = _
  rw [List.filter_eq, List.map_replicate]

section

variable {decls : Declarations} {id : NodeId} {d : Description}

/-- Declared targets that are the consumers in some order are kept. -/
theorem targets_of_perm {declared : List NodeId} (hd : d.targets = some declared)
    (hperm : declared.Perm (decls.consumers id)) :
    decls.targets id d = declared ∧ decls.replacement? id d = none := by
  simp [targets, replacement?, hd, hperm]

/-- Other declared targets are replaced, which is reported. -/
theorem targets_of_not_perm {declared : List NodeId} (hd : d.targets = some declared)
    (hperm : ¬ declared.Perm (decls.consumers id)) :
    decls.targets id d = decls.consumers id ∧
      decls.replacement? id d = some (.targetsReplaced id declared (decls.consumers id)) := by
  simp [targets, replacement?, hd, hperm]

/-- A node that declares no targets gets its consumers, and nothing is reported. -/
private theorem targets_of_undeclared (hd : d.targets = none) :
    decls.targets id d = decls.consumers id ∧ decls.replacement? id d = none := by
  simp [targets, replacement?, hd]

end

/-- A report is about the targets of the node whose declaration causes it. -/
theorem filter_replacement? (decls : Declarations) (id id' : NodeId) (d : Description) :
    (decls.replacement? id' d).filter (Event.replacesTargetsOf id) =
      if id' = id then decls.replacement? id' d else none := by
  unfold replacement?
  split
  · split
    · simp
    · -- Only here is anything reported, and it carries the id of the node.
      by_cases hid : id' = id
      · simp [Event.replacesTargetsOf, hid]
      · simp [Event.replacesTargetsOf, hid]
  · simp

/-- For each node there is at most one report that its targets were replaced. -/
theorem filter_replacedTargets {decls : Declarations} {id : NodeId} {d : Description}
    (hd : decls.get? id = some d) :
    decls.replacedTargets.filter (Event.replacesTargetsOf id) =
      (decls.replacement? id d).toList := by
  rw [replacedTargets, List.filter_filterMap, OrderedMap.filterMap_entries hd]
  · rw [filter_replacement?, if_pos rfl]
  · -- Other nodes cause reports about themselves only.
    intro e he
    rw [filter_replacement?, if_neg he]

/-- A report about parameters is not about targets. -/
private theorem filter_ignoredParameters (decls : Declarations) (id : NodeId) :
    decls.ignoredParameters.filter (Event.replacesTargetsOf id) = [] := by
  rw [List.filter_eq_nil_iff]
  intro event hevent
  obtain ⟨e, _, he⟩ := List.mem_filterMap.mp hevent
  split at he
  · cases he
    exact Bool.false_ne_true
  · cases he

end Declarations

namespace Graph

/-- The events about the targets of a node while a graph is built. -/
theorem filter_events_of_build {ds : List Description} {inputs outputs : Option (List NodeId)}
    {g : Graph} (h : (build ds inputs outputs).result = .ok g) {id : NodeId} {d : Description}
    (hd : lastDescription? ds id = some d) :
    (build ds inputs outputs).events.filter (Event.replacesTargetsOf id) =
      ((Declarations.ofList ds).replacement? id d).toList := by
  have hredeclared : ((Declarations.repeated [] ds).map Event.redeclared).filter
      (Event.replacesTargetsOf id) = [] := by
    rw [List.filter_map, List.map_eq_nil_iff, List.filter_eq_nil_iff]
    intro _ _
    exact Bool.false_ne_true
  have hbuilt : [Event.graphBuilt g.size g.inputs.length g.outputs.length].filter
      (Event.replacesTargetsOf id) = [] := rfl
  rw [← Declarations.get?_ofList] at hd
  -- Of the four groups of events, only one is about targets.
  rw [events_of_build h, List.filter_append, List.filter_append, List.filter_append, hredeclared,
    Declarations.filter_ignoredParameters, Declarations.filter_replacedTargets hd, hbuilt,
    List.nil_append, List.nil_append, List.append_nil]

/-- The targets of a node of a built graph, and the reports about them.  Declared targets are kept
    in their order if they are the consumers of the node in some order.  If they are not, even if
    they are an empty list, the consumers take their place and this is reported.  If no targets are
    declared, the targets are the consumers and nothing is reported. -/
theorem build_targets {ds : List Description} {inputs outputs : Option (List NodeId)} {g : Graph}
    (h : (build ds inputs outputs).result = .ok g) {id : NodeId} {n : Node}
    (hn : g.get? id = some n) :
    ∃ d, lastDescription? ds id = some d ∧
      (∀ declared, d.targets = some declared → declared.Perm (consumersOf ds id) →
        n.targets = declared ∧
        (build ds inputs outputs).events.filter (Event.replacesTargetsOf id) = []) ∧
      (∀ declared, d.targets = some declared → ¬ declared.Perm (consumersOf ds id) →
        n.targets = consumersOf ds id ∧
        (build ds inputs outputs).events.filter (Event.replacesTargetsOf id) =
          [.targetsReplaced id declared (consumersOf ds id)]) ∧
      (d.targets = none →
        n.targets = consumersOf ds id ∧
        (build ds inputs outputs).events.filter (Event.replacesTargetsOf id) = []) := by
  obtain ⟨_, hnodes, _, _⟩ := (build_eq_ok_iff ds inputs outputs g).mp h
  rw [get?_of_nodes hnodes, Declarations.get?_ofList] at hn
  obtain ⟨d, hd, rfl⟩ := Option.map_eq_some_iff.mp hn
  have hevents := filter_events_of_build h hd
  simp only [← Declarations.consumers_ofList]
  refine ⟨d, hd, ?_, ?_, ?_⟩
  · -- The declared targets are the consumers in some order, and are kept.
    intro declared hdeclared hperm
    obtain ⟨htargets, hreplacement⟩ := Declarations.targets_of_perm hdeclared hperm
    exact ⟨htargets, by rw [hevents, hreplacement]; rfl⟩
  · -- They are others, and are replaced.
    intro declared hdeclared hperm
    obtain ⟨htargets, hreplacement⟩ := Declarations.targets_of_not_perm hdeclared hperm
    exact ⟨htargets, by rw [hevents, hreplacement]; rfl⟩
  · -- There are none to replace.
    intro hundeclared
    obtain ⟨htargets, hreplacement⟩ := Declarations.targets_of_undeclared hundeclared
    exact ⟨htargets, by rw [hevents, hreplacement]; rfl⟩

/-- An input whose targets are declared in another order, a layer whose targets are declared as
    none, and a layer of whose targets nothing is said. -/
def forkDescriptions : List Description := [
  ⟨⟨"a"⟩, "Input", ∅, [], some [⟨"z"⟩, ⟨"x"⟩, ⟨"z"⟩]⟩,
  ⟨⟨"x"⟩, "Dense", ∅, [⟨"a"⟩], some []⟩,
  ⟨⟨"z"⟩, "Add", ∅, [⟨"a"⟩, ⟨"x"⟩, ⟨"a"⟩], none⟩,
  ⟨⟨"y"⟩, "Output", ∅, [⟨"z"⟩], some []⟩]

/-- A list in another order stays, and one that misses a consumer is replaced. -/
theorem build_targets_fork :
    ∃ g n m, (build forkDescriptions none none).result = .ok g ∧
      g.get? ⟨"a"⟩ = some n ∧ n.targets = [⟨"z"⟩, ⟨"x"⟩, ⟨"z"⟩] ∧
      (build forkDescriptions none none).events.filter (Event.replacesTargetsOf ⟨"a"⟩) = [] ∧
      g.get? ⟨"x"⟩ = some m ∧ m.targets = [⟨"z"⟩] ∧
      (build forkDescriptions none none).events.filter (Event.replacesTargetsOf ⟨"x"⟩) =
        [.targetsReplaced ⟨"x"⟩ [] [⟨"z"⟩]] := by
  obtain ⟨g, hg⟩ : ∃ g, (build forkDescriptions none none).result = .ok g := by
    rw [build_result]
    exact ⟨_, rfl⟩
  have hdeclared := (normalizes_of_build hg).declared
  obtain ⟨n, hn⟩ := (g.mem_ids_iff ⟨"a"⟩).mp (by rw [hdeclared]; decide)
  obtain ⟨m, hm⟩ := (g.mem_ids_iff ⟨"x"⟩).mp (by rw [hdeclared]; decide)
  obtain ⟨d, hd, hkept, _⟩ := build_targets hg hn
  obtain ⟨d', hd', _, hreplaced, _⟩ := build_targets hg hm
  obtain ⟨hntargets, hnevents⟩ := hkept [⟨"z"⟩, ⟨"x"⟩, ⟨"z"⟩] (by cases hd; rfl) (by decide)
  obtain ⟨hmtargets, hmevents⟩ := hreplaced [] (by cases hd'; rfl) (by decide)
  exact ⟨g, n, m, hg, hn, hntargets, hnevents, hm, hmtargets, hmevents⟩

end Graph

end LayerGraph
