import LayerGraph.Proofs.Schedule

/-! # Scheduling does not depend on the order of declaration

The walk goes along edges in an order that depends on the inputs and on every list of targets, so
two graphs with the same nodes can be walked in ways that have no state in common.  What a walk has
placed at its end is nevertheless fixed by the nodes and their sources alone: it is everything that
is not stuck.  So are the nodes that the inputs lead to, and with them the two lists of the error.

## Key results

- `Reorders.reachable_iff`, `Reorders.stuck_iff`: the inputs lead to the same nodes, and the same
  ones are stuck
- `Reorders.placed_perm`, `Reorders.stalled_perm`, `Reorders.blockers_perm`: the lists that the
  outcome is made of
- `schedule_sameUpToOrder`: the outcome itself -/

namespace LayerGraph.Graph

/-- The graphs have the same nodes, of the same kinds and with the same sources.  The order of the
    declarations, of the targets, of the inputs and of the outputs is left open. -/
structure Reorders (g g' : Graph) : Prop where
  ids : ∀ id, id ∈ g.ids ↔ id ∈ g'.ids
  nodes : ∀ id n n', g.get? id = some n → g'.get? id = some n' →
    n.kind = n'.kind ∧ n.sources = n'.sources

/-- The outcomes of scheduling are of the same kind and list the same nodes. -/
inductive SameUpToOrder :
    Except CompileError (List NodeId) → Except CompileError (List NodeId) → Prop
  | scheduled {order order' : List NodeId} (h : order.Perm order') :
    SameUpToOrder (.ok order) (.ok order')
  | noInput : SameUpToOrder (.error .noInput) (.error .noInput)
  | cyclicGraph {nodes nodes' blockedBy blockedBy' : List NodeId} (hnodes : nodes.Perm nodes')
    (hblockedBy : blockedBy.Perm blockedBy') :
    SameUpToOrder (.error (.cyclicGraph nodes blockedBy)) (.error (.cyclicGraph nodes' blockedBy'))

private theorem nodup_stalled {g : Graph} (hg : g.WellFormed) (reached placed : List NodeId) :
    (g.stalled reached placed).Nodup :=
  hg.idsNodup.filter _

/-- No source is listed twice. -/
theorem nodup_blockers (g : Graph) (reached nodes : List NodeId) :
    (g.blockers reached nodes).Nodup :=
  List.nodup_eraseDups _

/-- A blocking source is one that a listed node takes and no input leads to. -/
theorem Finished.mem_blockers {g : Graph} {w : Walk} {reached nodes : List NodeId} {id : NodeId}
    (h : g.Finished w reached) :
    id ∈ g.blockers reached nodes ↔ (∃ t ∈ nodes, g.Feeds id t) ∧ ¬ g.Reachable id := by
  simp only [blockers, List.mem_eraseDups, List.mem_filter, List.mem_flatMap, decide_eq_true_eq,
    h.mem_reached, Feeds]

namespace Reorders

variable {g g' : Graph}

/-! ## What the graphs have in common -/

/-- What depends only on the kind and the sources of a node is the same in both graphs. -/
theorem get?_map (h : g.Reorders g') (id : NodeId) :
    (g.get? id).map (fun n => (n.kind, n.sources)) =
      (g'.get? id).map fun n => (n.kind, n.sources) := by
  -- Both graphs have a node with this id or neither has.
  have hids := h.ids id
  rw [mem_ids_iff, mem_ids_iff] at hids
  cases hn : g.get? id with
  | none =>
    cases hn' : g'.get? id with
    | none => rfl
    | some n' => simp [hn, hn'] at hids
  | some n =>
    cases hn' : g'.get? id with
    | none => simp [hn, hn'] at hids
    | some n' =>
      obtain ⟨hkind, hsources⟩ := h.nodes id n n' hn hn'
      simp [hkind, hsources]

/-- Reordered graphs have the same sources, … -/
theorem sourcesOf_eq (h : g.Reorders g') : g.sourcesOf = g'.sourcesOf := by
  funext id
  have hmap := congrArg (Option.map Prod.snd) (h.get?_map id)
  rw [Option.map_map, Option.map_map] at hmap
  exact congrArg (Option.getD · []) hmap

/-- … the same roles, … -/
private theorem hasRole_eq (h : g.Reorders g') (role : Role) :
    g.hasRole role = g'.hasRole role := by
  funext id
  have hmap := congrArg (Option.any fun p => Role.ofKind p.1 = role) (h.get?_map id)
  rwa [Option.any_map, Option.any_map] at hmap

private theorem isInput_eq (h : g.Reorders g') : g.isInput = g'.isInput := h.hasRole_eq .input

theorem isOutput_eq (h : g.Reorders g') : g.isOutput = g'.isOutput := h.hasRole_eq .output

/-- … and so the same edges. -/
private theorem feeds_eq (h : g.Reorders g') : g.Feeds = g'.Feeds := by
  funext s t
  rw [Feeds, Feeds, h.sourcesOf_eq]

/-- The inputs lead to the same nodes. -/
theorem reachable_iff (h : g.Reorders g') (id : NodeId) : g.Reachable id ↔ g'.Reachable id := by
  rw [Reachable, Reachable, h.feeds_eq, h.isInput_eq]

/-- The same nodes are stuck. -/
theorem stuck_iff (h : g.Reorders g') (id : NodeId) : g.Stuck id ↔ g'.Stuck id := by
  simp only [Stuck, Cyclic, Ungrounded, h.feeds_eq, h.sourcesOf_eq, h.isInput_eq, h.ids]

/-- Both graphs have inputs or neither has. -/
private theorem inputs_eq_nil_iff (hg : g.WellFormed) (hg' : g'.WellFormed) (h : g.Reorders g') :
    g.inputs = [] ↔ g'.inputs = [] := by
  rw [← not_iff_not, ← ne_eq, ← ne_eq, ← exists_isInput_iff hg, ← exists_isInput_iff hg',
    h.isInput_eq]

/-! ## Finished walks -/

section Walks

variable {w w' : Walk} {reached reached' : List NodeId}

/-- Both walks end with everything placed that is not stuck. -/
theorem placed_perm (hg : g.WellFormed) (hg' : g'.WellFormed) (h : g.Reorders g')
    (hw : g.Finished w reached) (hw' : g'.Finished w' reached') : w.placed.Perm w'.placed := by
  rw [List.perm_ext_iff_of_nodup hw.inv.placedNodup hw'.inv.placedNodup]
  intro id
  by_cases hid : id ∈ g.ids
  · rw [mem_placed_iff_not_stuck hg hw.inv hw.frames hid,
      mem_placed_iff_not_stuck hg' hw'.inv hw'.frames ((h.ids id).mp hid), h.stuck_iff]
  · -- What is not declared is not placed.
    have hid' : id ∉ g'.ids := fun hmem => hid ((h.ids id).mpr hmem)
    exact iff_of_false (fun hmem => hid (hw.inv.placedDeclared id hmem))
      fun hmem => hid' (hw'.inv.placedDeclared id hmem)

/-- The same nodes are stalled, … -/
theorem stalled_perm (hg : g.WellFormed) (hg' : g'.WellFormed) (h : g.Reorders g')
    (hw : g.Finished w reached) (hw' : g'.Finished w' reached') :
    (g.stalled reached w.placed).Perm (g'.stalled reached' w'.placed) := by
  rw [List.perm_ext_iff_of_nodup (nodup_stalled hg _ _) (nodup_stalled hg' _ _)]
  intro id
  rw [hw.mem_stalled, hw'.mem_stalled, h.reachable_iff, (h.placed_perm hg hg' hw hw').mem_iff]

/-- … and the same sources block them. -/
theorem blockers_perm (h : g.Reorders g') (hw : g.Finished w reached)
    (hw' : g'.Finished w' reached') {nodes nodes' : List NodeId} (hnodes : nodes.Perm nodes') :
    (g.blockers reached nodes).Perm (g'.blockers reached' nodes') := by
  rw [List.perm_ext_iff_of_nodup (nodup_blockers g _ _) (nodup_blockers g' _ _)]
  intro id
  simp only [hw.mem_blockers, hw'.mem_blockers, h.reachable_iff, h.feeds_eq, hnodes.mem_iff]

end Walks

end Reorders

/-- Graphs with the same nodes, of the same kinds and with the same sources, are scheduled alike:
    both have a schedule, of the same nodes, or both fail in the same way, with the same nodes. -/
theorem schedule_sameUpToOrder {g g' : Graph} (hg : g.Built) (hg' : g'.Built)
    (h : g.Reorders g') : SameUpToOrder g.schedule.result g'.schedule.result := by
  have hwf := hg.wellFormed
  have hwf' := hg'.wellFormed
  by_cases hinputs : g.inputs = []
  · rw [schedule_of_no_inputs hinputs,
      schedule_of_no_inputs ((h.inputs_eq_nil_iff hwf hwf').mp hinputs)]
    exact .noInput
  have hinputs' : g'.inputs ≠ [] := fun hnil => hinputs ((h.inputs_eq_nil_iff hwf hwf').mpr hnil)
  -- The walks are compared at their ends only: before that they have nothing in common.
  obtain ⟨w, reached, hw, hresult⟩ := schedule_of_inputs hwf hinputs
  obtain ⟨w', reached', hw', hresult'⟩ := schedule_of_inputs hwf' hinputs'
  -- What a walk leaves behind is a matter of the graph, and so the same up to order.
  have hstalled := h.stalled_perm hwf hwf' hw hw'
  rw [hresult, hresult']
  dsimp only
  by_cases hnil : g.stalled reached w.placed = []
  · have hnil' : g'.stalled reached' w'.placed = [] := (hnil ▸ hstalled).nil_eq.symm
    rw [if_pos hnil, if_pos hnil', h.isOutput_eq]
    exact .scheduled ((h.placed_perm hwf hwf' hw hw').filter _)
  · have hnil' : g'.stalled reached' w'.placed ≠ [] := fun hnil' =>
      hnil (hnil' ▸ hstalled).eq_nil
    rw [if_neg hnil, if_neg hnil']
    exact .cyclicGraph hstalled (h.blockers_perm hw hw' hstalled)

/-- Two layers that each wait for a layer without sources. -/
def waiting : Graph where
  nodes := ⟨[
    (⟨"a"⟩, ⟨"Input", ∅, [], [⟨"x"⟩, ⟨"y"⟩]⟩),
    (⟨"x"⟩, ⟨"Add", ∅, [⟨"a"⟩, ⟨"p"⟩], []⟩),
    (⟨"y"⟩, ⟨"Add", ∅, [⟨"q"⟩, ⟨"a"⟩], []⟩),
    (⟨"p"⟩, ⟨"Dense", ∅, [], [⟨"x"⟩]⟩),
    (⟨"q"⟩, ⟨"Dense", ∅, [], [⟨"y"⟩]⟩)], by decide⟩
  inputs := [⟨"a"⟩]
  outputs := []

/-- The same layers, declared in another order. -/
def waitingTurned : Graph where
  nodes := ⟨[
    (⟨"q"⟩, ⟨"Dense", ∅, [], [⟨"y"⟩]⟩),
    (⟨"y"⟩, ⟨"Add", ∅, [⟨"q"⟩, ⟨"a"⟩], []⟩),
    (⟨"x"⟩, ⟨"Add", ∅, [⟨"a"⟩, ⟨"p"⟩], []⟩),
    (⟨"a"⟩, ⟨"Input", ∅, [], [⟨"y"⟩, ⟨"x"⟩]⟩),
    (⟨"p"⟩, ⟨"Dense", ∅, [], [⟨"x"⟩]⟩)], by decide⟩
  inputs := [⟨"a"⟩]
  outputs := []

private theorem waiting_reorders : waiting.Reorders waitingTurned where
  ids := by
    have h : waiting.ids.Perm waitingTurned.ids := by decide
    exact fun id => h.mem_iff
  nodes id n n' hn hn' := by
    have hall : ∀ id ∈ waiting.ids, (waiting.get? id).map (fun n => (n.kind, n.sources)) =
        (waitingTurned.get? id).map fun n => (n.kind, n.sources) := by decide
    have hid := hall id ((waiting.mem_ids_iff id).mpr ⟨n, hn⟩)
    simpa [hn, hn'] using hid

/-- The lists of the error are turned around with the declarations. -/
theorem schedule_sameUpToOrder_waiting :
    waiting.Built ∧ waitingTurned.Built ∧
      waiting.schedule.result = .error (.cyclicGraph [⟨"x"⟩, ⟨"y"⟩] [⟨"p"⟩, ⟨"q"⟩]) ∧
      waitingTurned.schedule.result = .error (.cyclicGraph [⟨"y"⟩, ⟨"x"⟩] [⟨"q"⟩, ⟨"p"⟩]) ∧
      SameUpToOrder waiting.schedule.result waitingTurned.schedule.result := by
  have hbuilt : waiting.Built := .descriptions [
    ⟨⟨"a"⟩, "Input", ∅, [], none⟩,
    ⟨⟨"x"⟩, "Add", ∅, [⟨"a"⟩, ⟨"p"⟩], none⟩,
    ⟨⟨"y"⟩, "Add", ∅, [⟨"q"⟩, ⟨"a"⟩], none⟩,
    ⟨⟨"p"⟩, "Dense", ∅, [], none⟩,
    ⟨⟨"q"⟩, "Dense", ∅, [], none⟩] rfl
  have hbuilt' : waitingTurned.Built := .descriptions [
    ⟨⟨"q"⟩, "Dense", ∅, [], none⟩,
    ⟨⟨"y"⟩, "Add", ∅, [⟨"q"⟩, ⟨"a"⟩], none⟩,
    ⟨⟨"x"⟩, "Add", ∅, [⟨"a"⟩, ⟨"p"⟩], none⟩,
    ⟨⟨"a"⟩, "Input", ∅, [], none⟩,
    ⟨⟨"p"⟩, "Dense", ∅, [], none⟩] rfl
  refine ⟨hbuilt, hbuilt', by cbv, by cbv, ?_⟩
  exact schedule_sameUpToOrder hbuilt hbuilt' waiting_reorders

end LayerGraph.Graph
