import LayerGraph.Proofs.Moments

/-! # The walk goes into the depth first

The walk keeps a stack of frames, but it can be told without one.  To visit a node is to mark it, to
append it to the order unless it is an output, and then to go through its targets: each is counted
down and, if it has become ready by that, visited before the next one's turn.  The traversal of a
graph visits its inputs one after the other.

This recursion ends on cyclic graphs too, because only unmarked nodes are visited.  The open frames
of the walk are the visits that have not come to their end, the innermost one first: what remains of
the traversal is to `resume` them (`resume_step`), and then to visit the inputs to come.

## Key results

- `Traversal.visit_eq`: what visiting a node is
- `Walk.resume_step`: a step leaves the rest of the traversal as it was
- `Graph.walk_eq_traversal`: the walk and the traversal come to the same end -/

namespace LayerGraph

/-- What a traversal of a graph notes down. -/
structure Traversal where
  /-- For every node, how many of its sources it waits for. -/
  pending : OrderedMap NodeId Nat
  marked : Finset NodeId
  order : List NodeId

namespace Traversal

/-- Before the first visit. -/
def initial (g : Graph) : Traversal := ⟨g.nodes.mapValues fun _ n => n.sources.length, ∅, []⟩

/-- Marks a node and puts it into the order, unless it is an output. -/
def mark (g : Graph) (t : Traversal) (id : NodeId) : Traversal :=
  ⟨t.pending, insert id t.marked, if g.isOutput id then t.order else t.order ++ [id]⟩

/-- Counts an edge into a node. -/
def countDown (t : Traversal) (id : NodeId) : Traversal :=
  ⟨t.pending.modify id (· - 1), t.marked, t.order⟩

/-- Whether a node waits for nothing more and is not marked. -/
def isReady (t : Traversal) (id : NodeId) : Bool :=
  t.pending.get? id = some 0 ∧ id ∉ t.marked

/-- The nodes that can still be visited. -/
def unmarked (t : Traversal) : List NodeId := t.pending.keys.filter fun id => id ∉ t.marked

/-- Counting down marks nothing. -/
private theorem unmarked_countDown (t : Traversal) (id : NodeId) :
    (t.countDown id).unmarked = t.unmarked := by
  show (t.pending.modify id _).keys.filter _ = t.pending.keys.filter _
  rw [OrderedMap.keys_modify]
  rfl

/-- Visiting a node that has become ready leaves fewer nodes that can be visited. -/
theorem unmarked_mark_lt {t : Traversal} {id : NodeId} (g : Graph)
    (h : (t.countDown id).isReady id = true) :
    ((t.countDown id).mark g id).unmarked.length < t.unmarked.length := by
  simp only [isReady, decide_eq_true_eq] at h
  have hunmarked : ((t.countDown id).mark g id).unmarked =
      (t.countDown id).unmarked.filter fun id' => id' ≠ id := by
    simp only [unmarked, List.filter_filter]
    refine List.filter_congr fun id' _ => ?_
    simp [mark]
  rw [← unmarked_countDown t id, hunmarked]
  refine List.length_filter_lt_length_iff_exists.mpr ⟨id, ?_, by simp⟩
  exact List.mem_filter.mpr ⟨(OrderedMap.mem_keys_iff _ _).mpr (by simp [h.1]), by simpa using h.2⟩

/-- Visits a node and everything that becomes ready by that.  The result shows that a visit removes
    no marks, so the visits that come later end as well. -/
def visitFrom (g : Graph) (t : Traversal) (id : NodeId) :
    { t' : Traversal // t'.unmarked.length ≤ (t.mark g id).unmarked.length } :=
  (g.targetsOf id).foldl
    (fun t' target =>
      if ready : (t'.1.countDown target).isReady target then
        -- Marking the target leaves fewer nodes unmarked than there are now, and these are no more
        -- than after marking `id`.
        let visited := visitFrom g (t'.1.countDown target) target
        ⟨visited.1, visited.2.trans ((unmarked_mark_lt g ready).le.trans t'.2)⟩
      else ⟨t'.1.countDown target, by rw [unmarked_countDown]; exact t'.2⟩)
    ⟨t.mark g id, le_rfl⟩
termination_by (t.mark g id).unmarked.length
decreasing_by exact (unmarked_mark_lt g ready).trans_le t'.2

/-- Visits a node and everything that becomes ready by that. -/
def visit (g : Graph) (t : Traversal) (id : NodeId) : Traversal := visitFrom g t id

/-- Goes along an edge: its target is counted down, and visited if that has made it ready. -/
def goAlong (g : Graph) (t : Traversal) (target : NodeId) : Traversal :=
  if (t.countDown target).isReady target then visit g (t.countDown target) target
  else t.countDown target

/-- To visit a node is to mark it and then to go along its edges, one after the other. -/
theorem visit_eq (g : Graph) (t : Traversal) (id : NodeId) :
    visit g t id = (g.targetsOf id).foldl (goAlong g) (t.mark g id) := by
  rw [visit, visitFrom]
  -- The bounds that the fold carries along do not matter to its result.
  refine (List.foldl_hom Subtype.val fun t' target => ?_).symm
  rw [goAlong]
  split
  · rfl
  · rfl

end Traversal

/-- Visits the inputs of a graph, one after the other. -/
def Graph.traversal (g : Graph) : Traversal := g.inputs.foldl (Traversal.visit g) (.initial g)

namespace Walk

variable {g : Graph} {w : Walk}

/-- What the walk has noted down, without the frames. -/
def toTraversal (g : Graph) (w : Walk) : Traversal :=
  ⟨w.pending, w.placed.toFinset, w.placed.filter fun id => !g.isOutput id⟩

/-- Placing a node is marking it. -/
private theorem toTraversal_placing (g : Graph) (w : Walk) (id : NodeId) :
    (w.placing id).toTraversal g = (w.toTraversal g).mark g id := by
  have hmarked : (w.placed ++ [id]).toFinset = insert id w.placed.toFinset := by
    ext x
    simp
  -- An output is marked like every other node but has no place in the order.
  have horder : (w.placed ++ [id]).filter (fun id => !g.isOutput id) =
      if g.isOutput id then w.placed.filter fun id => !g.isOutput id
      else (w.placed.filter fun id => !g.isOutput id) ++ [id] := by
    rw [List.filter_append]
    cases hout : g.isOutput id with
    | true => simp [hout]
    | false => simp [hout]
  rw [toTraversal, Traversal.mark]
  simp only [placing, hmarked, horder]
  rfl

/-- Walking along an edge is counting its target down. -/
private theorem toTraversal_follow (w : Walk) (frame : Frame) (rest : List Frame)
    (target : NodeId) :
    (w.follow frame rest target).toTraversal g = (w.toTraversal g).countDown target := rfl

/-- The same nodes are ready. -/
private theorem isReady_toTraversal (w : Walk) (id : NodeId) :
    (w.toTraversal g).isReady id = w.isReady id := by
  simp [Traversal.isReady, isReady, toTraversal]

/-- Brings the visits to their end that the frames stand for, from where each frame is. -/
def resume (g : Graph) (frames : List Frame) (t : Traversal) : Traversal :=
  frames.foldl
    (fun t frame => ((g.targetsOf frame.node).drop frame.next).foldl (Traversal.goAlong g) t) t

/-- A visit that has just begun has its whole list of targets before it. -/
theorem resume_placing (g : Graph) (w : Walk) (id : NodeId) :
    resume g (w.placing id).frames ((w.placing id).toTraversal g) =
      resume g w.frames ((w.toTraversal g).visit g id) := by
  rw [Traversal.visit_eq, ← toTraversal_placing]
  rfl

/-- A step does the next thing that is to be done in the open visits. -/
theorem resume_step {w' : Walk} (hframes : w.frames ≠ []) (hstep : w.step g = .ok w') :
    resume g w'.frames (w'.toTraversal g) = resume g w.frames (w.toTraversal g) := by
  obtain ⟨frame, rest, hw⟩ := List.exists_cons_of_ne_nil hframes
  rcases step_cases hw hstep with ⟨hdrop, rfl⟩ | ⟨target, hdrop, hready⟩
  · -- The innermost visit has come to its end.
    rw [hw, resume, resume, List.foldl_cons, hdrop]
    rfl
  · -- The innermost visit goes along its next edge, and is left with the others.
    have hnext : resume g w.frames (w.toTraversal g) =
        resume g (w.follow frame rest target).frames ((w.toTraversal g).goAlong g target) := by
      rw [hw, resume, List.foldl_cons, hdrop, List.foldl_cons]
      rfl
    rw [hnext, Traversal.goAlong, ← toTraversal_follow w frame rest target, isReady_toTraversal]
    rcases hready with ⟨hready, rfl⟩ | ⟨hready, rfl⟩
    · rw [hready, if_neg Bool.false_ne_true]
    · -- The target is visited first: its frame comes before the one of the innermost visit.
      rw [hready, if_pos rfl, resume_placing]

end Walk

namespace Graph

/-- What is left of the traversal: to bring the open visits to their end and to visit the inputs to
    come. -/
def remaining (g : Graph) (m : Moment) : Traversal :=
  m.upcoming.foldl (Traversal.visit g) (Walk.resume g m.walk.frames (m.walk.toTraversal g))

/-- A step of the walk leaves what the recursion has yet to do as it is. -/
private theorem remaining_next {g : Graph} (hg : g.WellFormed) {m m' : Moment} (h : m.Sound g)
    (hnext : m.next g = .ok m') : g.remaining m' = g.remaining m := by
  rcases Moment.next_cases hnext with ⟨_, rfl⟩ | ⟨input, upcoming, hframes, hup, hentered⟩ |
    ⟨hframes, w', hstep, rfl⟩
  · rfl
  · -- The next input is placed: its visit has begun.
    obtain ⟨_, _, _, _, _, hunplaced⟩ := h.of_upcoming hg hup
    rcases hentered with ⟨hplaced, _⟩ | ⟨_, rfl⟩
    · exact absurd hplaced hunplaced
    rw [remaining, remaining, hup, List.foldl_cons, Walk.resume_placing, hframes]
    rfl
  · rw [remaining, remaining, Walk.resume_step hframes hstep]

/-- At the end of the walk nothing is left of the traversal. -/
theorem exists_walk_eq_traversal {g : Graph} (hg : g.WellFormed) :
    ∃ w : Walk, g.walk = .ok w ∧ w.frames = [] ∧ w.toTraversal g = g.traversal := by
  obtain ⟨last, _, hsound, hcounted, hrest⟩ :=
    Moment.induction (P := fun k m => m.Counted g k ∧ g.remaining m = g.traversal) hg
      ⟨.start g, rfl⟩
      (fun _ _ _ hsound hnext ⟨hcounted, hrest⟩ =>
        ⟨hcounted.next hnext, (remaining_next hg hsound hnext).trans hrest⟩)
      (g.inputs.length + g.entries.length + g.size)
  have hover := hsound.isOver hcounted
  rw [remaining, hover.1, hover.2] at hrest
  exact ⟨last.walk, hsound.walk_eq hover, hover.1, hrest⟩

/-- The walk with its stack of frames and the recursive traversal come to the same order, marks and
    counts, and this order is the schedule, if there is one. -/
theorem walk_eq_traversal {g : Graph} (hg : g.Built) :
    ∃ w, g.walk = .ok w ∧ w.frames = [] ∧
      (w.placed.filter fun id => !g.isOutput id) = g.traversal.order ∧
      w.placed.toFinset = g.traversal.marked ∧
      w.pending = g.traversal.pending ∧
      ∀ order, g.schedule.result = .ok order → order = g.traversal.order := by
  obtain ⟨w, hwalk, hframes, heq⟩ := exists_walk_eq_traversal hg.wellFormed
  have horder : (w.placed.filter fun id => !g.isOutput id) = g.traversal.order :=
    congrArg Traversal.order heq
  refine ⟨w, hwalk, hframes, horder, congrArg Traversal.marked heq, congrArg Traversal.pending heq,
    fun order hresult => ?_⟩
  have hinputs : g.inputs ≠ [] := mt schedule_of_no_inputs (by simp [hresult])
  obtain ⟨reached, hreached, _⟩ := exists_reachable hg.wellFormed
  rw [schedule_of_walk hinputs hwalk hreached] at hresult
  dsimp only at hresult
  -- There is a schedule only if nothing is stalled, and then it is the order of the traversal.
  split at hresult
  · cases hresult
    exact horder
  · cases hresult

theorem walk_eq_traversal_crossing :
    crossing.Built ∧ crossing.traversal.order = [⟨"a"⟩, ⟨"b"⟩, ⟨"x"⟩] := by
  have hresult : crossing.schedule.result = .ok [⟨"a"⟩, ⟨"b"⟩, ⟨"x"⟩] := by cbv
  obtain ⟨_, _, _, _, _, _, hschedule⟩ := walk_eq_traversal crossing_built
  exact ⟨crossing_built, (hschedule _ hresult).symm⟩

end Graph

end LayerGraph
