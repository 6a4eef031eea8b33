import LayerGraph.Graph

/-! # Walking a graph

The walk places the nodes of a graph one after the other, each as soon as the last of its sources
has been placed.  It keeps for every node the number of its sources that are still pending, and
counts an edge when it walks along it.

Placing a node opens a frame, which walks along the targets of the node in their order.  Whenever a
target becomes ready it is placed at once, and its frame comes before the rest of the others, so
that the walk goes into the depth first.  The walk ends because every step either places another
node or leaves less to do in the open frames. -/

namespace LayerGraph

/-- A node whose targets are being walked along, and the index of the next one. -/
structure Frame where
  node : NodeId
  next : Nat
deriving DecidableEq, Repr

/-- The state of a walk. -/
structure Walk where
  /-- For every node, how many of its sources have not been walked away from. -/
  pending : OrderedMap NodeId Nat
  /-- The nodes that have been placed, in order. -/
  placed : List NodeId
  /-- The open frames, the innermost one first. -/
  frames : List Frame

namespace Walk

/-- The state before the first node. -/
def initial (g : Graph) : Walk :=
  ⟨g.nodes.mapValues fun _ n => n.sources.length, [], []⟩

/-- The number of sources that a node waits for. -/
def pendingOf (w : Walk) (id : NodeId) : Nat := (w.pending.get? id).getD 0

/-- Places a node, which the graph should have, and opens a frame for it. -/
def place (g : Graph) (w : Walk) (id : NodeId) : Except CompileError Walk := do
  let _ ← g.node id
  return ⟨w.pending, w.placed ++ [id], ⟨id, 0⟩ :: w.frames⟩

/-- Counts an edge into a node. -/
def release (w : Walk) (id : NodeId) : Walk :=
  ⟨w.pending.modify id (· - 1), w.placed, w.frames⟩

/-- Whether a node waits for nothing more and has not been placed. -/
def isReady (w : Walk) (id : NodeId) : Bool :=
  w.pending.get? id = some 0 ∧ id ∉ w.placed

/-- Walks along one edge of the innermost frame, or closes the frame if it has no more edges. -/
def step (g : Graph) (w : Walk) : Except CompileError Walk :=
  match w.frames with
  | [] => .ok w
  | frame :: rest => do
    let n ← g.node frame.node
    match n.targets[frame.next]? with
    -- The frame has no more edges.
    | none => return ⟨w.pending, w.placed, rest⟩
    | some target =>
      -- The frame moves on before its target can open a frame of its own.
      let w' := release ⟨w.pending, w.placed, ⟨frame.node, frame.next + 1⟩ :: rest⟩ target
      if w'.isReady target then w'.place g target else return w'

/-- The nodes that can still be placed. -/
def unplaced (w : Walk) : List NodeId := w.pending.keys.filter fun id => id ∉ w.placed

/-- The number of steps that the open frames take. -/
def work (g : Graph) (w : Walk) : Nat :=
  w.frames.foldr (fun f n => (g.targetsOf f.node).length - f.next + 1 + n) 0

/-- Releasing an edge places nothing. -/
private theorem unplaced_release (w : Walk) (id : NodeId) :
    (w.release id).unplaced = w.unplaced := by
  show (w.pending.modify id _).keys.filter _ = w.pending.keys.filter _
  rw [OrderedMap.keys_modify]
  rfl

/-- Placing a node that is ready leaves fewer nodes that can be placed. -/
theorem unplaced_place_lt {g : Graph} {w w' : Walk} {id : NodeId} (h : w.isReady id = true)
    (hplace : w.place g id = .ok w') : w'.unplaced.length < w.unplaced.length := by
  have hunplaced : w'.unplaced = w.unplaced.filter fun id' => id' ≠ id := by
    rw [place] at hplace
    cases hn : g.node id with
    | error e =>
      rw [hn] at hplace
      cases hplace
    | ok n =>
      rw [hn] at hplace
      cases hplace
      simp only [unplaced, List.filter_filter]
      refine List.filter_congr fun id' _ => ?_
      simp [and_comm]
  -- A node that is ready is counted and has not been placed.
  simp only [isReady, decide_eq_true_eq] at h
  rw [hunplaced]
  refine List.length_filter_lt_length_iff_exists.mpr ⟨id, ?_, by simp⟩
  exact List.mem_filter.mpr ⟨(OrderedMap.mem_keys_iff _ _).mpr (by simp [h.1]), by simpa using h.2⟩

/-- A step of a walk that is not over places another node or leaves less work. -/
theorem step_decreases {g : Graph} {w w' : Walk} (h : w.frames ≠ []) (hstep : w.step g = .ok w') :
    w'.unplaced.length < w.unplaced.length ∨
      w'.unplaced.length = w.unplaced.length ∧ w'.work g < w.work g := by
  obtain ⟨pending, placed, frames⟩ := w
  cases frames with
  | nil => exact absurd rfl h
  | cons frame rest =>
    have htargets : ∀ n, g.node frame.node = .ok n → g.targetsOf frame.node = n.targets := by
      intro n hn
      rw [Graph.node] at hn
      split at hn
      · next hget => cases hn; rw [Graph.targetsOf, hget]; rfl
      · cases hn
    simp only [step] at hstep
    cases hn : g.node frame.node with
    | error e =>
      rw [hn] at hstep
      cases hstep
    | ok n =>
      rw [hn] at hstep
      simp only [bind, Except.bind] at hstep
      split at hstep
      · cases hstep
        exact .inr ⟨rfl, by simp [work]⟩
      · -- An edge is walked along: there is less work, unless a node is placed.
        next target ht =>
        have hlt : frame.next < (g.targetsOf frame.node).length :=
          htargets n hn ▸ (List.getElem?_eq_some_iff.mp ht).1
        have hun : (release ⟨pending, placed, ⟨frame.node, frame.next + 1⟩ :: rest⟩
            target).unplaced = unplaced ⟨pending, placed, frame :: rest⟩ := unplaced_release _ _
        split at hstep
        · next hready => exact .inl (hun ▸ unplaced_place_lt hready hstep)
        · cases hstep
          refine .inr ⟨by rw [hun], ?_⟩
          simp only [work, release, List.foldr_cons]
          omega

/-- Goes on until no frame is open. -/
def run (g : Graph) (w : Walk) : Except CompileError Walk :=
  if _over : w.frames = [] then .ok w
  else
    match _hstep : w.step g with
    | .error e => .error e
    | .ok w' => run g w'
termination_by (w.unplaced.length, w.work g)
decreasing_by
  rcases step_decreases _over _hstep with hlt | ⟨heq, hlt⟩
  · exact Prod.Lex.left _ _ hlt
  · rw [heq]
    exact Prod.Lex.right _ hlt

/-- Places an input, unless it has been placed, and everything that becomes ready with it. -/
def enter (g : Graph) (w : Walk) (input : NodeId) : Except CompileError Walk :=
  if input ∈ w.placed then .ok w
  else if w.pendingOf input ≠ 0 then .error (.malformedGraph input .inputWithSources)
  else do run g (← w.place g input)

end Walk

/-- Walks through a graph from all its inputs, one after the other. -/
def Graph.walk (g : Graph) : Except CompileError Walk :=
  g.inputs.foldlM (Walk.enter g) (Walk.initial g)

end LayerGraph
