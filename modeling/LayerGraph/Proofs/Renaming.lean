import LayerGraph.Proofs.Consumers
import LayerGraph.Proofs.Embedding

/-! # Ids are opaque

If the nodes of a network are given other names, everything that comes of it has these names too:
the graph or the error of building it, and the schedule or the error of scheduling it.  The only
thing that the new names have to do is to tell the nodes apart as the old ones did.

Nearly everywhere ids are only compared for equality.  The exception is where the targets that a
node declares are compared with those that it has: there both lists are sorted, and the new names
may sort in another way.  But what is compared are two sorted lists, and these are equal exactly if
one list is the other in some order, which does not depend on the names (`targets_rename`).

Each stage of building has a lemma that moves a renaming from what goes into the stage to what comes
out of it.  For scheduling, a graph is embedded in the renamed graph.

## Key results

- `OrderedMap.ofList_rekey`, `Declarations.ofList_rename`: collecting declarations
- `Declarations.check_rename`, `Declarations.nodes_rename`, `Graph.endpoints_rename`: the stages of
  building
- `Graph.build_rename`: building
- `Graph.embeds_rename`: a graph is embedded in the renamed graph
- `Graph.renaming_equivariant`: building and scheduling -/

namespace LayerGraph

namespace OrderedMap

variable {κ κ' α β : Type}

/-- The map with other keys and values, in the same order. -/
def rekey (m : OrderedMap κ α) (f : κ ↪ κ') (h : α → β) : OrderedMap κ' β where
  entries := m.entries.map fun e => (f e.1, h e.2)
  distinct := by
    have hkeys : (m.entries.map fun e => (f e.1, h e.2)).map Prod.fst =
        (m.entries.map Prod.fst).map f := by
      rw [List.map_map, List.map_map]
      rfl
    rw [hkeys]
    exact m.distinct.map f.injective

/-- The keys are renamed in place. -/
private theorem keys_rekey (m : OrderedMap κ α) (f : κ ↪ κ') (h : α → β) :
    (m.rekey f h).keys = m.keys.map f := by
  simp only [keys, rekey, List.map_map]
  rfl

variable [DecidableEq κ] [DecidableEq κ']

/-- Under a renamed key the renamed value is found. -/
private theorem get?_rekey (m : OrderedMap κ α) (f : κ ↪ κ') (h : α → β) (k : κ) :
    (m.rekey f h).get? (f k) = (m.get? k).map h := by
  simp only [get?, rekey, List.find?_map, Option.map_map, Function.comp_def, f.injective.eq_iff]

/-- A renamed key is there if the key was. -/
private theorem contains_rekey (m : OrderedMap κ α) (f : κ ↪ κ') (h : α → β) (k : κ) :
    (m.rekey f h).contains (f k) = m.contains k := by
  rw [contains, get?_rekey, Option.isSome_map, contains]

/-- Renaming after an insertion inserts the renamed entry. -/
private theorem rekey_insert (m : OrderedMap κ α) (f : κ ↪ κ') (h : α → β) (k : κ) (v : α) :
    (m.insert k v).rekey f h = (m.rekey f h).insert (f k) (h v) := by
  have go : ∀ entries : List (κ × α), ((put k v entries).map fun e => (f e.1, h e.2)) =
      put (f k) (h v) (entries.map fun e => (f e.1, h e.2)) := by
    intro entries
    induction entries with
    | nil => rfl
    | cons e rest ih =>
      by_cases hk : e.1 = k
      · simp [put, hk]
      · simp [put, hk, f.injective.eq_iff, ih]
  exact OrderedMap.ext (go m.entries)

/-- Renaming entries before a map is made of them renames the map. -/
theorem ofList_rekey (entries : List (κ × α)) (f : κ ↪ κ') (h : α → β) :
    ofList (entries.map fun e => (f e.1, h e.2)) = (ofList entries).rekey f h := by
  -- The entries that have been inserted before are carried along.
  have go : ∀ (entries : List (κ × α)) (m : OrderedMap κ α),
      (entries.map fun e => (f e.1, h e.2)).foldl (fun m e => m.insert e.1 e.2) (m.rekey f h) =
        (entries.foldl (fun m e => m.insert e.1 e.2) m).rekey f h := by
    intro entries
    induction entries with
    | nil => intro m; rfl
    | cons e rest ih =>
      intro m
      rw [List.map_cons, List.foldl_cons, List.foldl_cons, ← ih, rekey_insert]
  exact go entries empty

end OrderedMap

open Graph.Embeds (mem_map_iff)

/-! ## Declarations -/

/-- The description under other names. -/
def Description.rename (f : NodeId ↪ NodeId) (d : Description) : Description :=
  ⟨f d.id, d.kind, d.parameters, d.sources.map f, d.targets.map (List.map f)⟩

namespace Declarations

variable (f : NodeId ↪ NodeId)

/-- The declarations under other names. -/
def rename (decls : Declarations) : Declarations := decls.rekey f (Description.rename f)

/-- Renamed descriptions make renamed declarations. -/
theorem ofList_rename (ds : List Description) :
    ofList (ds.map (Description.rename f)) = (ofList ds).rename f := by
  have hentries : (ds.map (Description.rename f)).map (fun d => (d.id, d)) =
      (ds.map fun d => (d.id, d)).map fun e => (f e.1, e.2.rename f) := by
    rw [List.map_map, List.map_map]
    rfl
  rw [ofList, hentries]
  exact OrderedMap.ofList_rekey _ f (Description.rename f)

/-- Renaming keeps roles. -/
private theorem isOutput_rename (decls : Declarations) (id : NodeId) :
    (decls.rename f).isOutput (f id) = decls.isOutput id := by
  rw [isOutput, rename, OrderedMap.get?_rekey, Option.any_map]
  rfl

/-- A renamed description breaks the same rule. -/
theorem fault?_rename (decls : Declarations) (d : Description) :
    (decls.rename f).fault? (d.rename f) = (decls.fault? d).map (GraphFault.rename f) := by
  -- All that the checks look at is renamed in the same way.
  have hedges : (d.rename f).sources ++ (d.rename f).targets.getD [] =
      (d.sources ++ d.targets.getD []).map f := by
    cases ht : d.targets with
    | none => simp [Description.rename, ht]
    | some declared => simp [Description.rename, ht]
  have hundeclared : ((fun edge => !(decls.rename f).contains edge) ∘ f) =
      fun edge => !decls.contains edge := by
    funext edge
    rw [Function.comp_apply, rename, OrderedMap.contains_rekey]
  have houtput : (decls.rename f).isOutput ∘ f = decls.isOutput := funext (isOutput_rename f decls)
  have hsources : (d.rename f).sources ≠ [] ↔ d.sources ≠ [] := by simp [Description.rename]
  have htargets : (d.rename f).targets.getD [] ≠ [] ↔ d.targets.getD [] ≠ [] := by
    cases ht : d.targets with
    | none => simp [Description.rename, ht]
    | some declared => simp [Description.rename, ht]
  have hrole : (d.rename f).role = d.role := rfl
  rw [fault?, fault?, hedges, List.find?_map, hundeclared]
  -- The first edge that is not declared, under its other name, or the rules of the roles.
  cases (d.sources ++ d.targets.getD []).find? fun edge => !decls.contains edge with
  | some edge => rfl
  | none =>
    simp only [Option.map_none, hrole, hsources, htargets]
    split
    · rfl
    · split
      · rfl
      · -- The first source that is an output, under its other name.
        show ((d.sources.map f).find? _).map _ = _
        rw [List.find?_map, houtput, Option.map_map, Option.map_map]
        rfl

/-- The check of renamed declarations fails with the renamed error. -/
theorem check_rename (decls : Declarations) :
    (decls.rename f).check = decls.check.mapError (CompileError.rename f) := by
  -- The first fault is found at the same place.
  have hfind : ((decls.rename f).entries.findSome? fun e =>
      ((decls.rename f).fault? e.2).map (CompileError.malformedGraph e.1)) =
      (decls.entries.findSome? fun e =>
        (decls.fault? e.2).map (CompileError.malformedGraph e.1)).map (CompileError.rename f) := by
    rw [rename, OrderedMap.rekey, List.findSome?_map, List.map_findSome?]
    congr 1
    funext e
    show ((decls.rename f).fault? (e.2.rename f)).map _ = _
    rw [fault?_rename, Function.comp_apply, Option.map_map, Option.map_map]
    rfl
  rw [check, check, hfind]
  cases decls.entries.findSome? fun e =>
    (decls.fault? e.2).map (CompileError.malformedGraph e.1) with
  | none => rfl
  | some error => rfl

/-- A renamed node has the renamed consumers, … -/
private theorem consumers_rename (decls : Declarations) (id : NodeId) :
    (decls.rename f).consumers (f id) = (decls.consumers id).map f := by
  rw [consumers, consumers, rename, OrderedMap.rekey, List.flatMap_map, List.map_flatMap]
  congr 1
  funext e
  show ((e.2.sources.map f).filter _).map _ = _
  simp only [List.filter_map, Function.comp_def, f.injective.eq_iff, List.map_map]

/-- … and the renamed targets. -/
theorem targets_rename (decls : Declarations) (id : NodeId) (d : Description) :
    (decls.rename f).targets (f id) (d.rename f) = (decls.targets id d).map f := by
  rw [targets, targets, consumers_rename, Description.rename]
  cases d.targets with
  | none => rfl
  | some declared =>
    -- The declared targets are the consumers in some order under both names or under neither.
    have hperm : (declared.map f).Perm ((decls.consumers id).map f) ↔
        declared.Perm (decls.consumers id) := List.map_perm_map_iff f.injective
    simp only [Option.map_some, hperm]
    split
    · rfl
    · rfl

/-- Renamed declarations make renamed nodes. -/
theorem nodes_rename (decls : Declarations) :
    (decls.rename f).nodes = decls.nodes.rekey f (Node.rename f) := by
  have hnode : ∀ id d, (decls.rename f).node (f id) (d.rename f) = (decls.node id d).rename f := by
    intro id d
    rw [node, targets_rename]
    rfl
  refine OrderedMap.ext ?_
  simp only [nodes, OrderedMap.mapValues, OrderedMap.rekey, List.map_map]
  show (decls.entries.map fun e => (f e.1, e.2.rename f)).map _ = _
  rw [List.map_map]
  refine List.map_congr_left fun e _ => ?_
  simp only [Function.comp_apply, hnode]

end Declarations

/-! ## Graphs -/

namespace Graph

variable (f : NodeId ↪ NodeId)

/-- The graph under other names. -/
def rename (g : Graph) : Graph :=
  ⟨g.nodes.rekey f (Node.rename f), g.inputs.map f, g.outputs.map f⟩

/-- A renamed endpoint has the renamed fault. -/
private theorem endpointFault?_rename (nodes : OrderedMap NodeId Node) (role : Role) (id : NodeId) :
    endpointFault? (nodes.rekey f (Node.rename f)) role (f id) =
      (endpointFault? nodes role id).map (GraphFault.rename f) := by
  rw [endpointFault?, endpointFault?, OrderedMap.get?_rekey]
  cases nodes.get? id with
  | none => rfl
  | some n =>
    show (if n.role = role then _ else _) = _
    dsimp only
    split
    · rfl
    · rfl

/-- Renamed endpoints are listed in the same order, or refused with the renamed error. -/
theorem endpoints_rename (nodes : OrderedMap NodeId Node) (role : Role)
    (listed : Option (List NodeId)) :
    endpoints (nodes.rekey f (Node.rename f)) role (listed.map (List.map f)) =
      ((endpoints nodes role listed).map (List.map f)).mapError (CompileError.rename f) := by
  have hlisted : (listed.map (List.map f)).getD [] = (listed.getD []).map f := by
    cases listed with
    | none => rfl
    | some ids => rfl
  -- The first listed id with a fault is found at the same place.
  have hfind : (((listed.getD []).map f).findSome? fun id =>
      (endpointFault? (nodes.rekey f (Node.rename f)) role id).map
        (CompileError.malformedGraph id)) =
      ((listed.getD []).findSome? fun id =>
        (endpointFault? nodes role id).map (CompileError.malformedGraph id)).map
          (CompileError.rename f) := by
    rw [List.findSome?_map, List.map_findSome?]
    congr 1
    funext id
    simp only [Function.comp_apply, endpointFault?_rename, Option.map_map]
    rfl
  simp only [endpoints, hlisted, hfind]
  cases (listed.getD []).findSome? fun id =>
    (endpointFault? nodes role id).map (CompileError.malformedGraph id) with
  | some error => rfl
  | none =>
    -- The others are those whose old names have not been listed.
    simp only [Option.map_none, List.eraseDups_map f.injective, OrderedMap.rekey, List.filter_map,
      List.map_map, Function.comp_def, mem_map_iff]
    show Except.ok _ = Except.ok _
    rw [List.map_append, List.map_map]
    rfl

/-- Building from renamed descriptions gives the renamed graph, or the renamed error. -/
theorem build_rename (ds : List Description) (inputs outputs : Option (List NodeId)) :
    (build (ds.map (Description.rename f)) (inputs.map (List.map f))
        (outputs.map (List.map f))).result =
      ((build ds inputs outputs).result.map (Graph.rename f)).mapError (CompileError.rename f) := by
  rw [build_result, build_result, Declarations.ofList_rename, Declarations.check_rename,
    Declarations.nodes_rename, endpoints_rename, endpoints_rename]
  -- The first stage that fails decides the outcome.
  cases (Declarations.ofList ds).check with
  | error e => rfl
  | ok _ =>
    cases endpoints (Declarations.ofList ds).nodes .input inputs with
    | error e => rfl
    | ok ins =>
      cases endpoints (Declarations.ofList ds).nodes .output outputs with
      | error e => rfl
      | ok outs => rfl

/-- A graph is embedded in its renamed copy. -/
theorem embeds_rename (g : Graph) : g.Embeds f (g.rename f) where
  get? id _ := OrderedMap.get?_rekey g.nodes f (Node.rename f) id
  ids := by
    have hids : (g.rename f).ids = g.ids.map f := OrderedMap.keys_rekey g.nodes f _
    rw [hids, List.filter_eq_self]
    simp
  inputs := rfl
  outputs := rfl

/-- Giving the nodes of a network other names, which tell the nodes apart as the old ones did,
    changes nothing but the names: neither in the graph or the error of building it, nor in the
    schedule or the error of scheduling it. -/
theorem renaming_equivariant (ds : List Description) (inputs outputs : Option (List NodeId)) :
    (build (ds.map (Description.rename f)) (inputs.map (List.map f))
        (outputs.map (List.map f))).result =
      ((build ds inputs outputs).result.map (Graph.rename f)).mapError (CompileError.rename f) ∧
    ∀ g, (build ds inputs outputs).result = .ok g →
      (g.rename f).schedule.result =
        (g.schedule.result.map (List.map f)).mapError (CompileError.rename f) := by
  refine ⟨build_rename f ds inputs outputs, fun g hg => ?_⟩
  have hrenamed := build_rename f ds inputs outputs
  rw [hg] at hrenamed
  exact (embeds_rename f g).schedule_result (wellFormed_of_build hg) (wellFormed_of_build hrenamed)

/-- The graph of `forkDescriptions`. -/
def forked : Graph where
  nodes := ⟨[
    (⟨"a"⟩, ⟨"Input", ∅, [], [⟨"z"⟩, ⟨"x"⟩, ⟨"z"⟩]⟩),
    (⟨"x"⟩, ⟨"Dense", ∅, [⟨"a"⟩], [⟨"z"⟩]⟩),
    (⟨"z"⟩, ⟨"Add", ∅, [⟨"a"⟩, ⟨"x"⟩, ⟨"a"⟩], [⟨"y"⟩]⟩),
    (⟨"y"⟩, ⟨"Output", ∅, [⟨"z"⟩], []⟩)], by decide⟩
  inputs := [⟨"a"⟩]
  outputs := [⟨"y"⟩]

/-- Exchanging two names turns their order around.  In the first network there is no schedule; in
    the second one an input keeps its declared targets, in an order in which they are not sorted
    under the old names nor under the new ones. -/
theorem renaming_equivariant_loop :
    (∃ f : NodeId ↪ NodeId, f ⟨"a"⟩ = ⟨"y"⟩ ∧ f ⟨"y"⟩ = ⟨"a"⟩ ∧ f ⟨"x"⟩ = ⟨"x"⟩ ∧
      (build (loopDescriptions.map (Description.rename f)) none none).result =
        .ok (loop.rename f) ∧
      (loop.rename f).schedule.result = .error (.cyclicGraph [⟨"x"⟩, ⟨"a"⟩] [])) ∧
    ∃ f : NodeId ↪ NodeId, f ⟨"x"⟩ = ⟨"z"⟩ ∧ f ⟨"z"⟩ = ⟨"x"⟩ ∧ f ⟨"a"⟩ = ⟨"a"⟩ ∧
      forkDescriptions.map (fun d => (d.rename f).targets) =
        [some [⟨"x"⟩, ⟨"z"⟩, ⟨"x"⟩], some [], none, some []] ∧
      (build (forkDescriptions.map (Description.rename f)) none none).result =
        .ok (forked.rename f) ∧
      (forked.rename f).targetsOf ⟨"a"⟩ = [⟨"x"⟩, ⟨"z"⟩, ⟨"x"⟩] ∧
      (forked.rename f).schedule.result = .ok [⟨"a"⟩, ⟨"z"⟩, ⟨"x"⟩] := by
  constructor
  · have hbuild : (build loopDescriptions none none).result = .ok loop := by
      rw [build_result]
      rfl
    have hschedule : loop.schedule.result = .error (.cyclicGraph [⟨"x"⟩, ⟨"y"⟩] []) := by cbv
    let f : NodeId ↪ NodeId := (Equiv.swap ⟨"a"⟩ ⟨"y"⟩).toEmbedding
    obtain ⟨hrenamed, hscheduled⟩ := renaming_equivariant f loopDescriptions none none
    rw [hbuild] at hrenamed
    refine ⟨f, by decide, by decide, by decide, hrenamed, ?_⟩
    rw [hscheduled loop hbuild, hschedule]
    rfl
  · have hbuild : (build forkDescriptions none none).result = .ok forked := by
      rw [build_result]
      rfl
    have hschedule : forked.schedule.result = .ok [⟨"a"⟩, ⟨"x"⟩, ⟨"z"⟩] := by cbv
    let f : NodeId ↪ NodeId := (Equiv.swap ⟨"x"⟩ ⟨"z"⟩).toEmbedding
    obtain ⟨hrenamed, hscheduled⟩ := renaming_equivariant f forkDescriptions none none
    rw [hbuild] at hrenamed
    refine ⟨f, by decide, by decide, by decide, by decide, hrenamed, by decide, ?_⟩
    rw [hscheduled forked hbuild, hschedule]
    rfl

end Graph

end LayerGraph
