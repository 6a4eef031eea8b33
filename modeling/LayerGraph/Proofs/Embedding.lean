import LayerGraph.Proofs.Schedule

/-! # Graphs inside graphs

A graph is embedded in another one if its nodes stand there under other names, with the same edges,
and nothing else can be reached from them.  The two walks then go through the same states, up to the
names and apart from the counts of the other nodes, so the schedules are the same up to the names.

A renaming is a one-to-one map of ids.  A graph is embedded in every graph that it becomes by a
renaming, and in every graph that it becomes when nodes are added to which none of its own are
connected.

## Key results

- `Walk.Matches.step`, `Walk.Matches.run`: steps and runs in both graphs go on alike
- `Embeds.walk`: so do the walks
- `Embeds.reachable_iff`: the inputs of both graphs lead to the same nodes
- `Embeds.schedule_result`: the schedule of the outer graph -/

namespace LayerGraph

/-! ## Renaming -/

/-- The node under other names. -/
def Node.rename (f : NodeId ↪ NodeId) (n : Node) : Node :=
  ⟨n.kind, n.parameters, n.sources.map f, n.targets.map f⟩

/-- The frame under other names. -/
def Frame.rename (f : NodeId ↪ NodeId) (frame : Frame) : Frame := ⟨f frame.node, frame.next⟩

/-- The fault under other names. -/
def GraphFault.rename (f : NodeId ↪ NodeId) : GraphFault → GraphFault
  | undeclaredEdge edge => undeclaredEdge (f edge)
  | inputWithSources => inputWithSources
  | outputWithTargets => outputWithTargets
  | outputAsSource source => outputAsSource (f source)
  | missingDescriptor => missingDescriptor
  | undeclared => undeclared
  | undeclaredEndpoint => undeclaredEndpoint
  | endpointKind role kind => endpointKind role kind
  | outputWithoutSources => outputWithoutSources
  | unconnectedSource source => unconnectedSource (f source)

/-- The error under other names. -/
def CompileError.rename (f : NodeId ↪ NodeId) : CompileError → CompileError
  | malformedGraph node fault => malformedGraph (f node) (fault.rename f)
  | cyclicGraph nodes blockedBy => cyclicGraph (nodes.map f) (blockedBy.map f)
  | noInput => noInput
  | noOutput => noOutput
  | notSequential node fault => notSequential (f node) fault
  | invalidPayload fault => invalidPayload fault

namespace Graph

/-- The nodes of `g` stand in `g'` under the names that `f` gives them, in the same order and with
    the same edges, and all inputs and outputs of `g'` are among them. -/
structure Embeds (f : NodeId ↪ NodeId) (g g' : Graph) : Prop where
  get? : ∀ id ∈ g.ids, g'.get? (f id) = (g.get? id).map (Node.rename f)
  ids : (g'.ids.filter fun id => id ∈ g.ids.map f) = g.ids.map f
  inputs : g'.inputs = g.inputs.map f
  outputs : g'.outputs = g.outputs.map f

namespace Embeds

variable {f : NodeId ↪ NodeId} {g g' : Graph}

theorem mem_map_iff (f : NodeId ↪ NodeId) {id : NodeId} {l : List NodeId} :
    f id ∈ l.map f ↔ id ∈ l :=
  List.mem_map_of_injective f.injective

/-- The image of a node takes the images of its sources, … -/
theorem sourcesOf_eq (h : g.Embeds f g') {id : NodeId} (hid : id ∈ g.ids) :
    g'.sourcesOf (f id) = (g.sourcesOf id).map f := by
  rw [sourcesOf, sourcesOf, h.get? id hid]
  cases g.get? id with
  | none => rfl
  | some n => rfl

/-- … and its targets are the images of the targets. -/
private theorem targetsOf_eq (h : g.Embeds f g') {id : NodeId} (hid : id ∈ g.ids) :
    g'.targetsOf (f id) = (g.targetsOf id).map f := by
  rw [targetsOf, targetsOf, h.get? id hid]
  cases g.get? id with
  | none => rfl
  | some n => rfl

/-- The images of nodes are nodes. -/
theorem mem_ids (h : g.Embeds f g') {id : NodeId} (hid : id ∈ g.ids) : f id ∈ g'.ids := by
  have hmem : f id ∈ g.ids.map f := List.mem_map_of_mem hid
  rw [← h.ids] at hmem
  exact (List.mem_filter.mp hmem).1

/-- The image of a node is an output if the node is. -/
theorem isOutput_eq (h : g.Embeds f g') {id : NodeId} (hid : id ∈ g.ids) :
    g'.isOutput (f id) = g.isOutput id := by
  rw [isOutput, isOutput, h.get? id hid, Option.any_map]
  rfl

end Embeds

end Graph

/-! ## Walks -/

namespace Walk

open Graph.Embeds (mem_map_iff)

/-- The walk `w'` is where `w` is, under other names; it may know of more nodes. -/
structure Matches (f : NodeId ↪ NodeId) (g : Graph) (w w' : Walk) : Prop where
  pending : ∀ id ∈ g.ids, w'.pending.get? (f id) = w.pending.get? id
  placed : w'.placed = w.placed.map f
  frames : w'.frames = w.frames.map (Frame.rename f)
  framesDeclared : ∀ frame ∈ w.frames, frame.node ∈ g.ids

namespace Matches

variable {f : NodeId ↪ NodeId} {g g' : Graph} {w w' : Walk}

/-- The walks match at the start. -/
theorem initial (h : g.Embeds f g') : Matches f g (initial g) (initial g') where
  pending id hid := by
    -- A node has as many sources under its other name.
    show (g'.nodes.mapValues _).get? _ = (g.nodes.mapValues _).get? _
    rw [OrderedMap.get?_mapValues, OrderedMap.get?_mapValues]
    show (g'.get? (f id)).map _ = (g.get? id).map _
    rw [h.get? id hid, Option.map_map]
    simp only [Function.comp_def, Node.rename, List.length_map]
  placed := rfl
  frames := rfl
  framesDeclared := nofun

/-- They match after a node and its image have been placed, … -/
theorem placing (h : Matches f g w w') {id : NodeId} (hid : id ∈ g.ids) :
    Matches f g (w.placing id) (w'.placing (f id)) where
  pending := h.pending
  placed := by simp [Walk.placing, h.placed]
  frames := by simp [Walk.placing, h.frames, Frame.rename]
  framesDeclared := by
    intro frame hframe
    rcases List.mem_cons.mp hframe with rfl | hframe
    · exact hid
    · exact h.framesDeclared frame hframe

/-- A node that can be placed can be placed under its other name. -/
theorem place (hembeds : g.Embeds f g') (h : Matches f g w w') {id : NodeId} {w₁ : Walk}
    (hplace : w.place g id = .ok w₁) :
    ∃ w₁', w'.place g' (f id) = .ok w₁' ∧ Matches f g w₁ w₁' := by
  obtain ⟨hid, rfl⟩ := place_eq_ok_iff.mp hplace
  exact ⟨_, place_eq_ok_iff.mpr ⟨hembeds.mem_ids hid, rfl⟩, h.placing hid⟩

/-- … and after an edge has been released on both sides. -/
theorem release (h : Matches f g w w') (id : NodeId) :
    Matches f g (w.release id) (w'.release (f id)) where
  pending v hv := by
    -- Different ids have different names, so no other count goes down.
    simp only [Walk.release, OrderedMap.get?_modify, f.injective.eq_iff, h.pending v hv]
  placed := h.placed
  frames := h.frames
  framesDeclared := h.framesDeclared

/-- A node is ready when its image is. -/
private theorem isReady_eq (h : Matches f g w w') {id : NodeId} (hid : id ∈ g.ids) :
    w'.isReady (f id) = w.isReady id := by
  simp only [isReady, h.pending id hid, h.placed, mem_map_iff]

/-- A step in both graphs closes the same frame or walks along the same edge. -/
theorem step (hg : g.WellFormed) (hembeds : g.Embeds f g') (h : Matches f g w w') {w₁ : Walk}
    (hframes : w.frames ≠ []) (hstep : w.step g = .ok w₁) :
    ∃ w₁', w'.step g' = .ok w₁' ∧ Matches f g w₁ w₁' := by
  obtain ⟨frame, rest, hw⟩ := List.exists_cons_of_ne_nil hframes
  have hw' : w'.frames = frame.rename f :: rest.map (Frame.rename f) := by rw [h.frames, hw]; rfl
  obtain ⟨hnode, hrest⟩ := List.forall_mem_cons.mp (hw ▸ h.framesDeclared)
  obtain ⟨n, hn⟩ := (g.mem_ids_iff _).mp hnode
  have hn' : g'.get? (f frame.node) = some (n.rename f) := by rw [hembeds.get? _ hnode, hn]; rfl
  rw [step_of_get? hw hn] at hstep
  rw [step_of_get? hw' hn']
  -- The same edge is due in both walks, and it may be none.
  have htargets : (n.rename f).targets[frame.next]? = n.targets[frame.next]?.map f :=
    List.getElem?_map ..
  rw [show (frame.rename f).next = frame.next from rfl, htargets]
  cases htarget : n.targets[frame.next]? with
  | none =>
    rw [htarget] at hstep
    cases hstep
    exact ⟨_, rfl, h.pending, h.placed, rfl, hrest⟩
  | some target =>
    rw [htarget] at hstep
    have hids : target ∈ g.ids := by
      refine hg.targetsDeclared frame.node target ?_
      rw [Graph.targetsOf_of_get? hn]
      exact List.mem_of_getElem? htarget
    -- Both frames move on, and then both targets are ready or neither is.
    have hmoved : Matches f g ⟨w.pending, w.placed, ⟨frame.node, frame.next + 1⟩ :: rest⟩
        ⟨w'.pending, w'.placed, ⟨f frame.node, frame.next + 1⟩ :: rest.map (Frame.rename f)⟩ :=
      ⟨h.pending, h.placed, rfl, List.forall_mem_cons.mpr ⟨hnode, hrest⟩⟩
    have hfollow : Matches f g (w.follow frame rest target)
        (w'.follow (frame.rename f) (rest.map (Frame.rename f)) (f target)) :=
      hmoved.release target
    rw [Option.map_some]
    dsimp only at hstep ⊢
    rw [hfollow.isReady_eq hids]
    split at hstep
    · next hready =>
      rw [if_pos hready]
      exact hfollow.place hembeds hstep
    · next hready =>
      rw [if_neg hready]
      cases hstep
      exact ⟨_, rfl, hfollow⟩

/-- From walks that match, the runs come to walks that match. -/
theorem run (hg : g.WellFormed) (hembeds : g.Embeds f g') (h : Matches f g w w') {w₁ : Walk}
    (hrun : w.run g = .ok w₁) : ∃ w₁', w'.run g' = .ok w₁' ∧ Matches f g w₁ w₁' := by
  -- Both walks are over at the same time.
  fun_induction Walk.run g w generalizing w' with
  | case1 w hover =>
    cases hrun
    exact ⟨w', run_of_frames_eq_nil (by rw [h.frames, hover]; rfl), h⟩
  | case2 w hopen e hstep => cases hrun
  | case3 w hopen w₂ hstep ih =>
    have hopen' : w'.frames ≠ [] := by rw [h.frames]; simpa using hopen
    obtain ⟨w₂', hstep', hmatches⟩ := h.step hg hembeds hopen hstep
    rw [run_of_frames_ne_nil hopen', hstep']
    exact ih hmatches hrun

/-- The same for entering an input and its image. -/
theorem enter (hg : g.WellFormed) (hembeds : g.Embeds f g') (h : Matches f g w w')
    {input : NodeId} {w₁ : Walk} (hinput : input ∈ g.ids) (henter : w.enter g input = .ok w₁) :
    ∃ w₁', w'.enter g' (f input) = .ok w₁' ∧ Matches f g w₁ w₁' := by
  have hpending : w'.pendingOf (f input) = w.pendingOf input := by
    rw [pendingOf, pendingOf, h.pending input hinput]
  -- Both inputs have been placed, or both are refused, or both walks are run.
  simp only [Walk.enter, h.placed, mem_map_iff, hpending] at henter ⊢
  split at henter
  · next hplaced =>
    cases henter
    exact ⟨w', by rw [if_pos hplaced], h⟩
  · next hplaced =>
    rw [if_neg hplaced]
    split at henter
    · cases henter
    · next hzero =>
      rw [if_neg hzero]
      obtain ⟨w₂, hplace, hrun⟩ := Except.bind_eq_ok_iff.mp henter
      obtain ⟨w₂', hplace', hmatches⟩ := h.place hembeds hplace
      rw [hplace', Except.ok_bind]
      exact hmatches.run hg hembeds hrun

end Matches

end Walk

namespace Graph.Embeds

variable {f : NodeId ↪ NodeId} {g g' : Graph}

/-- The walk through the outer graph ends where the walk through the inner one does. -/
theorem walk (hg : g.WellFormed) (h : g.Embeds f g') :
    ∃ w w', g.walk = .ok w ∧ w.Inv g g.inputs ∧ g'.walk = .ok w' ∧ w'.placed = w.placed.map f := by
  -- By induction on the inputs that are still to be entered.
  have go : ∀ (inputs : List NodeId) (w w' w₁ : Walk), (∀ i ∈ inputs, i ∈ g.ids) →
      Walk.Matches f g w w' → inputs.foldlM (Walk.enter g) w = .ok w₁ →
      ∃ w₁', (inputs.map f).foldlM (Walk.enter g') w' = .ok w₁' ∧ Walk.Matches f g w₁ w₁' := by
    intro inputs
    induction inputs with
    | nil =>
      intro w w' w₁ _ hmatches hfold
      cases hfold
      exact ⟨w', rfl, hmatches⟩
    | cons input inputs ih =>
      intro w w' w₁ hids hmatches hfold
      rw [List.foldlM_cons, Except.bind_eq_ok_iff] at hfold
      obtain ⟨w₂, henter, hfold⟩ := hfold
      obtain ⟨w₂', henter', hmatches'⟩ :=
        hmatches.enter hg h (hids input List.mem_cons_self) henter
      -- The walks match before each input, so both enter it and match again.
      rw [List.map_cons, List.foldlM_cons, henter']
      exact ih w₂ w₂' w₁ (fun i hi => hids i (List.mem_cons_of_mem _ hi)) hmatches' hfold
  obtain ⟨w, hwalk, hinv, _⟩ := Walk.walk_finishes hg
  obtain ⟨w', hwalk', hmatches⟩ := go g.inputs _ _ w (fun i hi => hg.mem_ids_of_mem_inputs hi)
    (.initial h) hwalk
  refine ⟨w, w', hwalk, hinv, ?_, hmatches.placed⟩
  rw [Graph.walk, h.inputs]
  exact hwalk'

/-! ## Reachable nodes -/

/-- Edges are mapped to edges. -/
private theorem feeds (h : g.Embeds f g') {s t : NodeId} (hst : g.Feeds s t) :
    g'.Feeds (f s) (f t) := by
  rw [Feeds, h.sourcesOf_eq (mem_ids_of_mem_sourcesOf hst), mem_map_iff]
  exact hst

/-- What the inputs of the outer graph lead to are the nodes that the inputs of the inner one lead
    to. -/
theorem reachable_iff (hg : g.WellFormed) (hg' : g'.WellFormed) (h : g.Embeds f g')
    (id : NodeId) : g'.Reachable id ↔ ∃ v, g.Reachable v ∧ f v = id := by
  constructor
  · intro ⟨i, hi, hpath⟩
    induction hpath with
    | refl =>
      rw [← hg'.memInputs, h.inputs, List.mem_map] at hi
      obtain ⟨v, hv, rfl⟩ := hi
      exact ⟨v, reachable_of_isInput ((hg.memInputs v).mp hv), rfl⟩
    | tail _ hedge ih =>
      -- An edge from a node of the inner graph leads to one of its targets there.
      obtain ⟨v, hv, rfl⟩ := ih
      rw [← hg'.mem_targetsOf, h.targetsOf_eq hv.mem_ids, List.mem_map] at hedge
      obtain ⟨t, ht, rfl⟩ := hedge
      exact ⟨t, hv.tail (hg.mem_targetsOf.mp ht), rfl⟩
  · rintro ⟨v, ⟨i, hi, hpath⟩, rfl⟩
    have hinput : g'.Reachable (f i) := by
      refine reachable_of_isInput ((hg'.memInputs _).mp ?_)
      rw [h.inputs, mem_map_iff]
      exact (hg.memInputs i).mpr hi
    induction hpath with
    | refl => exact hinput
    | tail _ hedge ih => exact ih.tail (h.feeds hedge)

/-! ## Schedules -/

section Reached

variable {reached reached' : List NodeId}

/-- The searches find a node and its image together. -/
private theorem mem_reached_iff (hg : g.WellFormed) (hg' : g'.WellFormed) (h : g.Embeds f g')
    (hreached : ∀ id, id ∈ reached ↔ g.Reachable id)
    (hreached' : ∀ id, id ∈ reached' ↔ g'.Reachable id) {id : NodeId} :
    f id ∈ reached' ↔ id ∈ reached := by
  rw [hreached, hreached', h.reachable_iff hg hg']
  simp only [f.injective.eq_iff, exists_eq_right]

/-- What is stalled in the outer graph are the images of what is stalled in the inner one. -/
private theorem stalled_eq (hg : g.WellFormed) (hg' : g'.WellFormed) (h : g.Embeds f g')
    (hreached : ∀ id, id ∈ reached ↔ g.Reachable id)
    (hreached' : ∀ id, id ∈ reached' ↔ g'.Reachable id) (placed : List NodeId) :
    g'.stalled reached' (placed.map f) = (g.stalled reached placed).map f := by
  -- All that is stalled can be reached, so it comes from the inner graph.
  have hinner : ∀ id, id ∈ reached' → id ∈ g.ids.map f := by
    intro id hid
    obtain ⟨v, hv, rfl⟩ := (h.reachable_iff hg hg' id).mp ((hreached' id).mp hid)
    exact List.mem_map_of_mem hv.mem_ids
  have hfilter : g'.stalled reached' (placed.map f) =
      (g.ids.map f).filter fun id => id ∈ reached' ∧ id ∉ placed.map f := by
    rw [stalled, ← h.ids, List.filter_filter]
    refine List.filter_congr fun id _ => ?_
    by_cases hid : id ∈ reached'
    · simp [hid, hinner id hid]
    · simp [hid]
  -- Of the inner graph the same nodes are stalled.
  rw [hfilter, List.filter_map, stalled]
  congr 1
  refine List.filter_congr fun id _ => ?_
  simp only [Function.comp_apply, h.mem_reached_iff hg hg' hreached hreached', mem_map_iff]

/-- The same for the sources that block them. -/
private theorem blockers_eq (hg : g.WellFormed) (hg' : g'.WellFormed) (h : g.Embeds f g')
    (hreached : ∀ id, id ∈ reached ↔ g.Reachable id)
    (hreached' : ∀ id, id ∈ reached' ↔ g'.Reachable id) {nodes : List NodeId}
    (hnodes : ∀ id ∈ nodes, id ∈ g.ids) :
    g'.blockers reached' (nodes.map f) = (g.blockers reached nodes).map f := by
  -- The same sources stand in the same order, so also the first mentions of them do.
  have hsources : (nodes.map f).flatMap g'.sourcesOf = (nodes.flatMap g.sourcesOf).map f := by
    rw [List.flatMap_map, List.map_flatMap]
    exact List.flatMap_congr fun id hid => h.sourcesOf_eq (hnodes id hid)
  rw [blockers, blockers, hsources, List.filter_map, List.eraseDups_map f.injective]
  congr 2
  refine List.filter_congr fun id _ => ?_
  simp only [Function.comp_apply, h.mem_reached_iff hg hg' hreached hreached']

end Reached

/-- The schedule of the outer graph is the schedule of the inner one under other names, and so is
    the error if there is none. -/
theorem schedule_result (hg : g.WellFormed) (hg' : g'.WellFormed) (h : g.Embeds f g') :
    g'.schedule.result = (g.schedule.result.map (List.map f)).mapError (CompileError.rename f) := by
  -- Without inputs both fail alike.
  by_cases hinputs : g.inputs = []
  · rw [schedule_of_no_inputs hinputs, schedule_of_no_inputs (by rw [h.inputs, hinputs]; rfl)]
    rfl
  have hinputs' : g'.inputs ≠ [] := by rw [h.inputs]; simpa using hinputs
  obtain ⟨w, w', hwalk, hinv, hwalk', hplaced⟩ := h.walk hg
  obtain ⟨reached, hsearch, hreached⟩ := exists_reachable hg
  obtain ⟨reached', hsearch', hreached'⟩ := exists_reachable hg'
  have hdeclared : ∀ id ∈ g.stalled reached w.placed, id ∈ g.ids := fun id hid =>
    (List.mem_filter.mp hid).1
  rw [schedule_of_walk hinputs hwalk hsearch, schedule_of_walk hinputs' hwalk' hsearch', hplaced,
    h.stalled_eq hg hg' hreached hreached']
  -- The same nodes are stalled: if there are none, the nodes that were placed are the schedule.
  dsimp only
  by_cases hnil : g.stalled reached w.placed = []
  · rw [if_pos hnil, if_pos (by rw [hnil]; rfl), List.filter_map]
    have hfilter : (w.placed.filter ((fun id => !g'.isOutput id) ∘ f)) =
        w.placed.filter fun id => !g.isOutput id := by
      refine List.filter_congr fun id hid => ?_
      rw [Function.comp_apply, h.isOutput_eq (hinv.placedDeclared id hid)]
    rw [hfilter]
    rfl
  · -- Otherwise the stalled nodes and those that block them are reported.
    rw [if_neg hnil, if_neg (by simpa using hnil),
      h.blockers_eq hg hg' hreached hreached' hdeclared]
    rfl

end Graph.Embeds

end LayerGraph
