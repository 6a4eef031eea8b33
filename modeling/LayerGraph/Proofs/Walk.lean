import LayerGraph.Proofs.Library
import LayerGraph.Proofs.WellFormed
import LayerGraph.Schedule.Walk
import Mathlib.Algebra.GroupWithZero.Nat
import Mathlib.Data.List.Count

/-! # The invariant of the walk

At every moment the number of sources that a node waits for is the number of its sources that have
not been placed plus the number of edges into it that the open frames have yet to walk along.  From
this bookkeeping follows what the walk is for: when a node waits for nothing more, its sources have
been placed, so the walk may place it.

A step looks up the node of the innermost frame, and the node that it places.  Both are declared, so
the walk never comes to the error that an unknown node would be.

## Key results

- `step_cases`: the three things that a step can do
- `Consistent.exists_step`: a step does not fail
- `Consistent.close`, `Consistent.follow`, `Consistent.placing`: what a step is made of keeps the
  bookkeeping
- `Inv.step`, `Inv.run`: a step and a run keep the invariant
- `walk_finishes`: the walk of a well-formed graph has no error
- `Inv.mem_placed_iff`: which nodes have been placed at the end -/

namespace LayerGraph

/-- Every node in the list comes after all its sources. -/
def Graph.Ordered (g : Graph) (order : List NodeId) : Prop :=
  ∀ before id after, order = before ++ id :: after → ∀ s ∈ g.sourcesOf id, s ∈ before

namespace Graph.Ordered

variable {g : Graph} {order : List NodeId}

theorem nil (g : Graph) : g.Ordered [] := by
  intro before id after h
  exact absurd h.symm (by simp)

/-- A node whose sources have all come may come next. -/
private theorem concat (h : g.Ordered order) {id : NodeId} (hid : ∀ s ∈ g.sourcesOf id, s ∈ order) :
    g.Ordered (order ++ [id]) := by
  intro before x after hsplit s hs
  -- Either the node is the new one at the end, or it stands in the old list.
  rcases List.eq_nil_or_concat after with rfl | ⟨after', last, rfl⟩
  · obtain ⟨rfl, hx⟩ := List.append_inj' hsplit rfl
    cases hx
    exact hid s hs
  · rw [List.concat_eq_append, ← List.cons_append, ← List.append_assoc] at hsplit
    obtain ⟨rfl, _⟩ := List.append_inj' hsplit rfl
    exact h before x after' rfl s hs

/-- The beginning of an ordered list is ordered. -/
theorem of_append {order' : List NodeId} (h : g.Ordered (order ++ order')) : g.Ordered order := by
  intro before id after hsplit
  refine h before id (after ++ order') ?_
  rw [hsplit, List.append_assoc]
  rfl

/-- With a node an ordered list holds its sources. -/
theorem mem_of_feeds (h : g.Ordered order) {s t : NodeId} (hst : g.Feeds s t) (ht : t ∈ order) :
    s ∈ order := by
  obtain ⟨before, after, rfl⟩ := List.append_of_mem ht
  exact List.mem_append_left _ (h before t after rfl s hst)

/-- Leaving out nodes that are no sources keeps the order. -/
theorem filter (h : g.Ordered order) {p : NodeId → Bool}
    (hp : ∀ id, ∀ s ∈ g.sourcesOf id, p s = true) : g.Ordered (order.filter p) := by
  intro before id after hsplit s hs
  -- In the whole list some nodes that are left out may stand between `before` and the node.
  obtain ⟨l₁, l₂, rfl, rfl, hrest⟩ := List.filter_eq_append_iff.mp hsplit
  obtain ⟨skipped, l₃, rfl, hskipped, _, _⟩ := List.filter_eq_cons_iff.mp hrest
  have hmem : s ∈ l₁ ++ skipped := by
    refine h (l₁ ++ skipped) id l₃ ?_ s hs
    rw [List.append_assoc]
  rcases List.mem_append.mp hmem with hs₁ | hs₂
  · exact List.mem_filter.mpr ⟨hs₁, hp id s hs⟩
  · exact absurd (hp id s hs) (hskipped s hs₂)

end Graph.Ordered

namespace Walk

variable {g : Graph} {w : Walk}

/-! ## Pending counts -/

/-- Releasing an edge takes one off the count of its target. -/
private theorem pendingOf_release (w : Walk) (id v : NodeId) :
    (w.release id).pendingOf v = if v = id then w.pendingOf v - 1 else w.pendingOf v := by
  simp only [pendingOf, release, OrderedMap.get?_modify]
  split
  · cases w.pending.get? v with
    | none => rfl
    | some n => rfl
  · rfl

/-- The number of edges into a node that the open frames have yet to walk along. -/
def outstanding (g : Graph) (w : Walk) (id : NodeId) : Nat :=
  (w.frames.map fun f => ((g.targetsOf f.node).drop f.next).count id).sum

/-! ## Steps -/

/-- The walk after a node has been placed. -/
def placing (w : Walk) (id : NodeId) : Walk :=
  ⟨w.pending, w.placed ++ [id], ⟨id, 0⟩ :: w.frames⟩

/-- Every declared node can be placed, and no other one. -/
theorem place_eq_ok_iff {w' : Walk} {id : NodeId} :
    w.place g id = .ok w' ↔ id ∈ g.ids ∧ w' = w.placing id := by
  rw [place, ← Graph.exists_node_iff]
  cases g.node id with
  | error e => simp [bind, Except.bind]
  | ok n => simp [bind, Except.bind, pure, Except.pure, placing, eq_comm]

/-- The walk after the innermost frame has walked along its edge to `target`. -/
def follow (w : Walk) (frame : Frame) (rest : List Frame) (target : NodeId) : Walk :=
  release ⟨w.pending, w.placed, ⟨frame.node, frame.next + 1⟩ :: rest⟩ target

/-- Walking along an edge takes one off the count of its target. -/
theorem pendingOf_follow (w : Walk) (frame : Frame) (rest : List Frame) (target id : NodeId) :
    (w.follow frame rest target).pendingOf id =
      if id = target then w.pendingOf id - 1 else w.pendingOf id :=
  pendingOf_release _ target id

/-- A step looks at the next target of the top frame: without one the frame is closed, and otherwise
    the edge is released and its target placed if it is ready. -/
theorem step_of_get? {frame : Frame} {rest : List Frame} (hw : w.frames = frame :: rest) {n : Node}
    (hn : g.get? frame.node = some n) :
    w.step g =
      match n.targets[frame.next]? with
      | none => .ok ⟨w.pending, w.placed, rest⟩
      | some target =>
        if (w.follow frame rest target).isReady target then
          (w.follow frame rest target).place g target
        else .ok (w.follow frame rest target) := by
  simp only [step, hw, Graph.node_of_get? hn]
  rfl

/-- A step closes the innermost frame, or it walks along an edge and places the target of the edge
    if that has become ready. -/
theorem step_cases {w' : Walk} {frame : Frame} {rest : List Frame} (hw : w.frames = frame :: rest)
    (h : w.step g = .ok w') :
    ((g.targetsOf frame.node).drop frame.next = [] ∧ w' = ⟨w.pending, w.placed, rest⟩) ∨
    ∃ target, (g.targetsOf frame.node).drop frame.next =
        target :: (g.targetsOf frame.node).drop (frame.next + 1) ∧
      ((w.follow frame rest target).isReady target = false ∧ w' = w.follow frame rest target ∨
        (w.follow frame rest target).isReady target = true ∧
          w' = (w.follow frame rest target).placing target) := by
  cases hn : g.get? frame.node with
  | none =>
    simp only [step, hw, Graph.node, hn] at h
    cases h
  | some n =>
    rw [step_of_get? hw hn] at h
    rw [Graph.targetsOf_of_get? hn]
    -- The frame is at its end, or there is a next edge.
    cases ht : n.targets[frame.next]? with
    | none =>
      rw [ht] at h
      cases h
      rw [List.getElem?_eq_none_iff] at ht
      exact .inl ⟨List.drop_eq_nil_iff.mpr ht, rfl⟩
    | some target =>
      rw [ht] at h
      obtain ⟨hlt, htarget⟩ := List.getElem?_eq_some_iff.mp ht
      refine .inr ⟨target, by rw [List.drop_eq_getElem_cons hlt, htarget], ?_⟩
      dsimp only at h
      -- Along the edge the target may have become ready.
      split at h
      · next hready => exact .inr ⟨hready, (place_eq_ok_iff.mp h).2⟩
      · next hready =>
        cases h
        exact .inl ⟨Bool.eq_false_iff.mpr hready, rfl⟩

/-! ## Bookkeeping -/

/-- What the walk has noted down agrees with the graph. -/
structure Consistent (g : Graph) (w : Walk) : Prop where
  keys : w.pending.keys = g.ids
  framesDeclared : ∀ frame ∈ w.frames, frame.node ∈ g.ids
  /-- A node waits for the sources that have not been placed and for the edges that have not been
      walked along. -/
  pendingEq : ∀ id, w.pendingOf id =
    (g.sourcesOf id).countP (· ∉ w.placed) + w.outstanding g id
  placedNodup : w.placed.Nodup
  placedDeclared : ∀ id ∈ w.placed, id ∈ g.ids
  ordered : g.Ordered w.placed
  /-- Apart from inputs, nothing is placed that does not take anything. -/
  grounded : ∀ id ∈ w.placed, g.isInput id = true ∨ g.sourcesOf id ≠ []

/-- At the start every node waits for all its sources. -/
theorem Consistent.initial (g : Graph) : (initial g).Consistent g where
  keys := OrderedMap.keys_mapValues ..
  framesDeclared := nofun
  pendingEq id := by
    -- Nothing has been placed and no frame is open, so every source counts.
    have hcount : (g.sourcesOf id).countP (· ∉ ([] : List NodeId)) = (g.sourcesOf id).length := by
      rw [List.countP_eq_length]
      simp
    show (((g.nodes.mapValues fun _ n => n.sources.length).get? id).getD 0) = _ + 0
    rw [show (Walk.initial g).placed = [] from rfl, hcount, OrderedMap.get?_mapValues,
      Graph.sourcesOf, Graph.get?]
    cases g.nodes.get? id with
    | none => rfl
    | some n => rfl
  placedNodup := List.nodup_nil
  placedDeclared := nofun
  ordered := .nil g
  grounded := nofun

/-- A node is ready if it is declared, waits for nothing and has not been placed. -/
theorem Consistent.isReady_iff (h : w.Consistent g) (id : NodeId) :
    w.isReady id = true ↔ id ∈ g.ids ∧ w.pendingOf id = 0 ∧ id ∉ w.placed := by
  rw [← h.keys, OrderedMap.mem_keys_iff, pendingOf]
  simp only [isReady, decide_eq_true_eq]
  cases w.pending.get? id with
  | none => simp
  | some n => simp

/-- A step looks up declared nodes only. -/
theorem Consistent.exists_step (h : w.Consistent g) (hframes : w.frames ≠ []) :
    ∃ w', w.step g = .ok w' := by
  obtain ⟨frame, rest, hw⟩ := List.exists_cons_of_ne_nil hframes
  obtain ⟨n, hn⟩ := (g.mem_ids_iff _).mp (h.framesDeclared frame (hw ▸ List.mem_cons_self))
  rw [step_of_get? hw hn]
  cases n.targets[frame.next]? with
  | none => exact ⟨_, rfl⟩
  | some target =>
    dsimp only
    split
    · next hready =>
      -- What is ready has a count, and the counts are those of the declared nodes.
      have hkeys : (w.follow frame rest target).pending.keys = g.ids := by
        rw [← h.keys]
        exact OrderedMap.keys_modify ..
      simp only [isReady, decide_eq_true_eq] at hready
      have hdeclared : target ∈ g.ids := by
        rw [← hkeys, OrderedMap.mem_keys_iff, hready.1]
        rfl
      exact ⟨_, place_eq_ok_iff.mpr ⟨hdeclared, rfl⟩⟩
    · exact ⟨_, rfl⟩

/-- The sources of a node that waits for nothing have been placed. -/
theorem Consistent.mem_placed_of_pendingOf (h : w.Consistent g) {id : NodeId}
    (hid : w.pendingOf id = 0) : ∀ s ∈ g.sourcesOf id, s ∈ w.placed := by
  have hcount : (g.sourcesOf id).countP (· ∉ w.placed) = 0 := by
    have := h.pendingEq id
    omega
  intro s hs
  simpa using List.countP_eq_zero.mp hcount s hs

/-- Closing a frame that has no more edges. -/
theorem Consistent.close (h : w.Consistent g) {frame : Frame} {rest : List Frame}
    (hw : w.frames = frame :: rest) (hdrop : (g.targetsOf frame.node).drop frame.next = []) :
    Consistent g ⟨w.pending, w.placed, rest⟩ where
  keys := h.keys
  framesDeclared f hf := h.framesDeclared f (hw ▸ List.mem_cons_of_mem _ hf)
  pendingEq id := by
    have hout : w.outstanding g id = outstanding g ⟨w.pending, w.placed, rest⟩ id := by
      simp [outstanding, hw, hdrop]
    exact hout ▸ h.pendingEq id
  placedNodup := h.placedNodup
  placedDeclared := h.placedDeclared
  ordered := h.ordered
  grounded := h.grounded

/-- Walking along an edge: its target waits for one edge less. -/
theorem Consistent.follow (h : w.Consistent g) {frame : Frame} {rest : List Frame}
    (hw : w.frames = frame :: rest) {target : NodeId}
    (hdrop : (g.targetsOf frame.node).drop frame.next =
      target :: (g.targetsOf frame.node).drop (frame.next + 1)) :
    (w.follow frame rest target).Consistent g where
  keys := by rw [← h.keys]; exact OrderedMap.keys_modify ..
  framesDeclared := by
    have hframes := h.framesDeclared
    rw [hw, List.forall_mem_cons] at hframes
    exact List.forall_mem_cons.mpr hframes
  pendingEq id := by
    -- The edge leaves the frame, and the count of its target goes down with it.
    have hout : w.outstanding g id =
        (w.follow frame rest target).outstanding g id + if id = target then 1 else 0 := by
      simp only [outstanding, Walk.follow, release, hw, List.map_cons, List.sum_cons, hdrop,
        List.count_cons, beq_iff_eq, eq_comm (a := target)]
      omega
    have hpending := h.pendingEq id
    rw [pendingOf_follow]
    show _ = (g.sourcesOf id).countP (· ∉ w.placed) + (w.follow frame rest target).outstanding g id
    by_cases hid : id = target
    · rw [if_pos hid] at hout ⊢
      omega
    · rw [if_neg hid] at hout ⊢
      omega
  placedNodup := h.placedNodup
  placedDeclared := h.placedDeclared
  ordered := h.ordered
  grounded := h.grounded

/-- Placing a node: what its targets waited for becomes an edge of the new frame. -/
theorem Consistent.placing (hg : g.WellFormed) (h : w.Consistent g) {id : NodeId}
    (hdeclared : id ∈ g.ids) (hnew : id ∉ w.placed) (hpending : w.pendingOf id = 0)
    (hground : g.isInput id = true ∨ g.sourcesOf id ≠ []) : (w.placing id).Consistent g where
  keys := h.keys
  framesDeclared := List.forall_mem_cons.mpr ⟨hdeclared, h.framesDeclared⟩
  pendingEq v := by
    -- The new frame has yet to walk along all edges from `id`; of these the lists of both ends
    -- hold equally many.
    have hout : (w.placing id).outstanding g v = (g.sourcesOf v).count id + w.outstanding g v := by
      simp [outstanding, Walk.placing, ← hg.mirrored]
    have hcount := List.countP_not_mem_concat hnew (g.sourcesOf v)
    have hbefore := h.pendingEq v
    show w.pendingOf v = (g.sourcesOf v).countP (· ∉ w.placed ++ [id]) + _
    omega
  placedNodup := by
    refine List.nodup_append.mpr ⟨h.placedNodup, by simp, ?_⟩
    intro a ha b hb hab
    rw [List.mem_singleton.mp hb] at hab
    exact hnew (hab ▸ ha)
  placedDeclared v hv := by
    rcases List.mem_append.mp hv with hv | hv
    · exact h.placedDeclared v hv
    · exact List.mem_singleton.mp hv ▸ hdeclared
  ordered := h.ordered.concat (h.mem_placed_of_pendingOf hpending)
  grounded v hv := by
    rcases List.mem_append.mp hv with hv | hv
    · exact h.grounded v hv
    · exact List.mem_singleton.mp hv ▸ hground

/-! ## The invariant -/

/-- The walk is consistent, nothing that could be placed has been left behind, and of the inputs
    just `entered` have been placed, in this order. -/
structure Inv (g : Graph) (entered : List NodeId) (w : Walk) : Prop extends w.Consistent g where
  waiting : ∀ id ∈ g.ids, w.pendingOf id = 0 → g.sourcesOf id ≠ [] → id ∈ w.placed
  inputsPlaced : w.placed.filter g.isInput = entered

/-- The invariant holds before any input has been entered. -/
theorem Inv.initial (g : Graph) : (initial g).Inv g [] where
  toConsistent := .initial g
  waiting id _ hpending hsources := by
    -- Before the first step a node waits for all its sources.
    have hall := (Consistent.initial g).mem_placed_of_pendingOf hpending
    exact absurd (List.eq_nil_iff_forall_not_mem.mpr fun s hs => nomatch hall s hs) hsources
  inputsPlaced := rfl

/-- A step keeps the invariant. -/
theorem Inv.step {entered : List NodeId} (hg : g.WellFormed) (h : w.Inv g entered)
    (hframes : w.frames ≠ []) {w' : Walk} (hstep : w.step g = .ok w') : w'.Inv g entered := by
  obtain ⟨frame, rest, hw⟩ := List.exists_cons_of_ne_nil hframes
  rcases step_cases hw hstep with ⟨hdrop, rfl⟩ | ⟨target, hdrop, ⟨hready, rfl⟩ | ⟨hready, rfl⟩⟩
  · -- A frame is closed.
    exact { toConsistent := h.close hw hdrop, waiting := h.waiting, inputsPlaced := h.inputsPlaced }
  all_goals
    have hfollow := h.follow hw hdrop
    -- No other node than the target is counted down.
    have hother : ∀ id, id ≠ target →
        (w.follow frame rest target).pendingOf id = w.pendingOf id := fun id hid => by
      rw [pendingOf_follow, if_neg hid]
  · -- The target still waits for something, or has been placed.
    refine { toConsistent := hfollow, waiting := ?_, inputsPlaced := h.inputsPlaced }
    intro id hid hpending hsources
    by_cases htarget : id = target
    · subst htarget
      by_cases hplaced : id ∈ w.placed
      · exact hplaced
      · rw [(hfollow.isReady_iff id).mpr ⟨hid, hpending, hplaced⟩] at hready
        cases hready
    · rw [hother id htarget] at hpending
      exact h.waiting id hid hpending hsources
  · -- The target has become ready and is placed.
    obtain ⟨hdeclared, hpending, hnew⟩ := (hfollow.isReady_iff target).mp hready
    have hfeeds : g.Feeds frame.node target := by
      rw [← hg.mem_targetsOf]
      exact List.mem_of_mem_drop (hdrop ▸ List.mem_cons_self)
    have hsources : g.sourcesOf target ≠ [] := List.ne_nil_of_mem hfeeds
    refine
      { toConsistent := hfollow.placing hg hdeclared hnew hpending (.inr hsources)
        waiting := ?_
        inputsPlaced := ?_ }
    · intro id hid hpending hsources
      by_cases htarget : id = target
      · exact htarget ▸ List.mem_append_right _ List.mem_cons_self
      · have hpending' : w.pendingOf id = 0 := by
          rw [← hother id htarget]
          exact hpending
        exact List.mem_append_left _ (h.waiting id hid hpending' hsources)
    · -- The target takes something, so it is no input.
      show (w.placed ++ [target]).filter g.isInput = entered
      rw [List.filter_append, h.inputsPlaced]
      simp [hg.isInput_of_feeds hfeeds]

/-- Without frames a run is over. -/
theorem run_of_frames_eq_nil (h : w.frames = []) : w.run g = .ok w := by
  rw [Walk.run, dif_pos h]

/-- With frames left a run is a step and the rest of the run. -/
theorem run_of_frames_ne_nil (h : w.frames ≠ []) : w.run g = w.step g >>= run g := by
  rw [Walk.run, dif_neg h]
  split
  · next e hstep => rw [hstep]; rfl
  · next w' hstep => rw [hstep]; rfl

/-- A run keeps the invariant, and ends when no frame is open. -/
theorem Inv.run {entered : List NodeId} (hg : g.WellFormed) (h : w.Inv g entered) :
    ∃ w', w.run g = .ok w' ∧ w'.Inv g entered ∧ w'.frames = [] := by
  fun_induction Walk.run g w with
  | case1 w hover => exact ⟨w, rfl, h, hover⟩
  | case2 w hopen e he =>
    obtain ⟨w', hw'⟩ := h.exists_step hopen
    rw [he] at hw'
    cases hw'
  | case3 w hopen w' hstep ih => exact ih (h.step hg hopen hstep)

/-! ## From input to input -/

section Enter

variable {entered : List NodeId} {input : NodeId}

/-- The next input has not been placed. -/
theorem Inv.not_mem_placed (h : w.Inv g entered) (hinput : g.isInput input = true)
    (hnew : input ∉ entered) : input ∉ w.placed := by
  intro hmem
  rw [← h.inputsPlaced] at hnew
  exact hnew (List.mem_filter.mpr ⟨hmem, hinput⟩)

/-- Between two inputs no frame is open, and the next input waits for nothing. -/
theorem Inv.pendingOf_input (hg : g.WellFormed) (h : w.Inv g entered) (hframes : w.frames = [])
    (hinput : g.isInput input = true) : w.pendingOf input = 0 := by
  rw [h.pendingEq, hg.inputSources input hinput, outstanding, hframes]
  rfl

/-- Placing an input that is new keeps the invariant. -/
theorem Inv.placeInput (hg : g.WellFormed) (h : w.Inv g entered) (hframes : w.frames = [])
    (hinput : g.isInput input = true) (hnew : input ∉ entered) :
    (w.placing input).Inv g (entered ++ [input]) where
  toConsistent := h.placing hg (Graph.mem_ids_of_hasRole hinput) (h.not_mem_placed hinput hnew)
    (h.pendingOf_input hg hframes hinput) (.inl hinput)
  waiting := fun id hid hp hs => List.mem_append_left _ (h.waiting id hid hp hs)
  inputsPlaced := by
    show (w.placed ++ [input]).filter g.isInput = _
    rw [List.filter_append, h.inputsPlaced]
    simp [hinput]

/-- The next input is placed without an error. -/
theorem Inv.enter_eq (hg : g.WellFormed) (h : w.Inv g entered) (hframes : w.frames = [])
    (hinput : g.isInput input = true) (hnew : input ∉ entered) :
    w.enter g input = (w.placing input).run g := by
  have hplace : w.place g input = .ok (w.placing input) :=
    place_eq_ok_iff.mpr ⟨Graph.mem_ids_of_hasRole hinput, rfl⟩
  have hpending := h.pendingOf_input hg hframes hinput
  rw [Walk.enter, if_neg (h.not_mem_placed hinput hnew), if_neg (fun hne => hne hpending), hplace]
  rfl

end Enter

/-- The walk of a well-formed graph comes to its end, and keeps the invariant. -/
theorem walk_finishes (hg : g.WellFormed) :
    ∃ w, g.walk = .ok w ∧ w.Inv g g.inputs ∧ w.frames = [] := by
  -- By induction on the inputs to come; those that have been entered are carried along.
  have go : ∀ (inputs entered : List NodeId) (w : Walk), g.inputs = entered ++ inputs →
      w.Inv g entered → w.frames = [] →
      ∃ w', inputs.foldlM (Walk.enter g) w = .ok w' ∧ w'.Inv g g.inputs ∧ w'.frames = [] := by
    intro inputs
    induction inputs with
    | nil =>
      intro entered w hsplit hinv hframes
      rw [List.append_nil] at hsplit
      exact ⟨w, rfl, hsplit ▸ hinv, hframes⟩
    | cons input inputs ih =>
      intro entered w hsplit hinv hframes
      obtain ⟨hinput, hnew⟩ := hg.input_of_split hsplit
      obtain ⟨w', hrun, hinv', hframes'⟩ := (hinv.placeInput hg hframes hinput hnew).run hg
      rw [List.foldlM_cons, hinv.enter_eq hg hframes hinput hnew, hrun]
      refine ih (entered ++ [input]) w' ?_ hinv' hframes'
      rw [hsplit, List.append_assoc]
      rfl
  exact go g.inputs [] (initial g) rfl (.initial g) rfl

/-- At the end a node has been placed exactly if it is an input or takes something, and all that it
    takes has been placed. -/
theorem Inv.mem_placed_iff (hg : g.WellFormed) (h : w.Inv g g.inputs) (hframes : w.frames = [])
    (id : NodeId) : id ∈ w.placed ↔
      g.isInput id = true ∨ g.sourcesOf id ≠ [] ∧ ∀ s ∈ g.sourcesOf id, s ∈ w.placed := by
  constructor
  · intro hid
    refine (h.grounded id hid).imp_right fun hsources => ⟨hsources, fun s hs => ?_⟩
    exact h.ordered.mem_of_feeds hs hid
  · intro hid
    rcases hid with hinput | ⟨hsources, hall⟩
    · have hmem := (hg.memInputs id).mpr hinput
      rw [← h.inputsPlaced] at hmem
      exact (List.mem_filter.mp hmem).1
    · obtain ⟨s, hs⟩ := List.exists_mem_of_ne_nil _ hsources
      -- No frame is open, so the node waits for nothing.
      have hpending : w.pendingOf id = 0 := by
        rw [h.pendingEq, outstanding, hframes]
        exact List.countP_eq_zero.mpr fun s hs => by simpa using hall s hs
      exact h.waiting id (Graph.mem_ids_of_mem_sourcesOf hs) hpending hsources

end Walk

end LayerGraph
