import LayerGraph.Proofs.Schedule

/-! # The moments of the walk

The walk is a loop in a loop: it enters the inputs one after the other, and after each of them it
runs until no frame is open.  Here the two loops are unrolled into one.  A `Moment` is where the
walk stands between two rounds of either loop, with the inputs that are still to come and a record
of all edges that have been walked along so far, and `next` is one round.

An edge is named by its entry in a list of targets: the node whose list it is, and the index in the
list.  The record shows that the walk counts every edge at most once, and just those of the nodes
that it has placed.

## Key results

- `Walk.Recorded.close`, `Walk.Recorded.follow`, `Walk.Recorded.placing`: what a step is made of
  keeps the record right
- `Moment.next_cases`: the three things that a round can do
- `Moment.Sound.next`, `Moment.induction`: a round and any number of rounds succeed and keep the
  record right
- `Moment.Counted.next`: how many rounds have been made
- `Graph.walk_accounts`: what the record says at every moment and at the last one -/

namespace LayerGraph

namespace Graph

/-- The node that an entry of a list of targets names. -/
def targetAt (g : Graph) (entry : NodeId × Nat) : Option NodeId := (g.targetsOf entry.1)[entry.2]?

/-- The number of edges into a node in a record of entries. -/
def countInto (g : Graph) (record : List (NodeId × Nat)) (id : NodeId) : Nat :=
  record.countP fun entry => g.targetAt entry = some id

/-- One more entry of the record is one more edge into its target. -/
private theorem countInto_concat {g : Graph} {entry : NodeId × Nat} {target : NodeId}
    (h : g.targetAt entry = some target) (record : List (NodeId × Nat)) (id : NodeId) :
    g.countInto (record ++ [entry]) id =
      g.countInto record id + if id = target then 1 else 0 := by
  simp [countInto, List.countP_singleton, h, eq_comm]

/-- The entries of all lists of targets. -/
def entries (g : Graph) : List (NodeId × Nat) :=
  g.ids.flatMap fun id => (List.range (g.targetsOf id).length).map fun index => (id, index)

/-- The entries of a graph are the places in its lists of targets. -/
private theorem mem_entries {g : Graph} {entry : NodeId × Nat} :
    entry ∈ g.entries ↔ entry.1 ∈ g.ids ∧ entry.2 < (g.targetsOf entry.1).length := by
  simp only [entries, List.mem_flatMap, List.mem_map, List.mem_range]
  constructor
  · rintro ⟨id, hid, index, hindex, rfl⟩
    exact ⟨hid, hindex⟩
  · rintro ⟨hid, hindex⟩
    exact ⟨entry.1, hid, entry.2, hindex, rfl⟩

end Graph

namespace Walk

/-- The entry of the edge that the next step walks along, unless it closes a frame. -/
def edge? (g : Graph) (w : Walk) : Option (NodeId × Nat) :=
  match w.frames with
  | [] => none
  | frame :: _ =>
    if frame.next < (g.targetsOf frame.node).length then some (frame.node, frame.next) else none

/-- The record holds each entry once that the walk has walked along, and nothing else: all entries
    of the nodes that have been placed, up to where their frames are. -/
structure Recorded (g : Graph) (w : Walk) (record : List (NodeId × Nat)) : Prop where
  /-- A node waits for the edges into it that have not been walked along. -/
  counted : ∀ id, w.pendingOf id + g.countInto record id = (g.sourcesOf id).length
  nodup : record.Nodup
  mem_iff : ∀ id index, (id, index) ∈ record ↔
    id ∈ w.placed ∧ index < (g.targetsOf id).length ∧
      ∀ frame ∈ w.frames, frame.node = id → index < frame.next
  framesPlaced : ∀ frame ∈ w.frames, frame.node ∈ w.placed
  framesNodup : (w.frames.map Frame.node).Nodup

section Step

variable {g : Graph} {w : Walk} {record : List (NodeId × Nat)} {frame : Frame} {rest : List Frame}
  {target : NodeId}

/-- A frame without targets left has no next edge. -/
private theorem edge?_of_drop_eq_nil (hw : w.frames = frame :: rest)
    (hdrop : (g.targetsOf frame.node).drop frame.next = []) : w.edge? g = none := by
  rw [List.drop_eq_nil_iff] at hdrop
  simp only [edge?, hw]
  exact if_neg (Nat.not_lt.mpr hdrop)

/-- The next edge of a frame leads to the first target that is left. -/
private theorem edge?_of_drop_eq_cons (hw : w.frames = frame :: rest)
    (hdrop : (g.targetsOf frame.node).drop frame.next =
      target :: (g.targetsOf frame.node).drop (frame.next + 1)) :
    w.edge? g = some (frame.node, frame.next) ∧
      g.targetAt (frame.node, frame.next) = some target := by
  have htarget : (g.targetsOf frame.node)[frame.next]? = some target := by
    rw [← Nat.add_zero frame.next, ← List.getElem?_drop, hdrop]
    rfl
  refine ⟨?_, htarget⟩
  simp only [edge?, hw]
  exact if_pos (List.getElem?_eq_some_iff.mp htarget).1

/-- Nothing has been recorded at the start. -/
theorem Recorded.initial (g : Graph) : (initial g).Recorded g [] where
  counted id := by
    -- Nothing has been placed, so a node waits for all its sources.
    have hpending := (Consistent.initial g).pendingEq id
    have hall : (g.sourcesOf id).countP (· ∉ (Walk.initial g).placed) = (g.sourcesOf id).length :=
      List.countP_eq_length.mpr fun s _ => by simp [Walk.initial]
    rw [hpending, hall]
    rfl
  nodup := List.nodup_nil
  mem_iff := by simp [Walk.initial]
  framesPlaced := nofun
  framesNodup := List.nodup_nil

/-- The frame that is closed has come to the end of its list. -/
theorem Recorded.close (h : w.Recorded g record) (hw : w.frames = frame :: rest)
    (hdrop : (g.targetsOf frame.node).drop frame.next = []) :
    Recorded g ⟨w.pending, w.placed, rest⟩ record where
  counted := h.counted
  nodup := h.nodup
  mem_iff id index := by
    rw [List.drop_eq_nil_iff] at hdrop
    rw [h.mem_iff, hw]
    refine and_congr_right fun _ => and_congr_right fun hindex => ?_
    rw [List.forall_mem_cons]
    -- The frame that is closed has been recorded to its end.
    refine and_iff_right fun hid => ?_
    rw [hid] at hdrop
    omega
  framesPlaced f hf := h.framesPlaced f (hw ▸ List.mem_cons_of_mem _ hf)
  framesNodup := by
    have hnodup := h.framesNodup
    rw [hw] at hnodup
    exact hnodup.of_cons

/-- When the innermost frame moves on, the entry that it was at joins the record. -/
theorem Recorded.mem_concat_iff (h : w.Recorded g record) (hw : w.frames = frame :: rest)
    (hlt : frame.next < (g.targetsOf frame.node).length) (id : NodeId) (index : Nat) :
    (id, index) ∈ record ++ [(frame.node, frame.next)] ↔
      id ∈ w.placed ∧ index < (g.targetsOf id).length ∧
        ∀ f ∈ (⟨frame.node, frame.next + 1⟩ :: rest : List Frame),
          f.node = id → index < f.next := by
  rw [List.mem_append, List.mem_singleton, Prod.mk.injEq, h.mem_iff, hw, List.forall_mem_cons,
    List.forall_mem_cons]
  by_cases hid : id = frame.node
  · subst hid
    have hplaced : frame.node ∈ w.placed := h.framesPlaced frame (hw ▸ List.mem_cons_self)
    -- No other frame is open for the same node.
    have hothers : ∀ f ∈ rest, f.node = frame.node → index < f.next := by
      intro f hf hnode
      have hnodup := h.framesNodup
      rw [hw, List.map_cons, List.nodup_cons] at hnodup
      exact absurd (List.mem_map.mpr ⟨f, hf, hnode⟩) hnodup.1
    constructor
    · rintro (⟨_, hindex, hbefore, _⟩ | ⟨_, rfl⟩)
      · exact ⟨hplaced, hindex, fun _ => Nat.lt_succ_of_lt (hbefore rfl), hothers⟩
      · exact ⟨hplaced, hlt, fun _ => Nat.lt_succ_self _, hothers⟩
    · -- Up to the new position everything is old, and the new position is the new entry.
      rintro ⟨_, hindex, hbefore, _⟩
      rcases Nat.lt_succ_iff_lt_or_eq.mp (hbefore rfl) with hlt | heq
      · exact .inl ⟨hplaced, hindex, fun _ => hlt, hothers⟩
      · exact .inr ⟨rfl, heq⟩
  · -- The frame of another node is where it was.
    simp [hid, Ne.symm hid]

/-- The entry that is walked along is new, and its target waits for one edge less. -/
theorem Recorded.follow (h : w.Recorded g record) (hw : w.frames = frame :: rest)
    (htarget : g.targetAt (frame.node, frame.next) = some target)
    (hwaits : 0 < w.pendingOf target) :
    (w.follow frame rest target).Recorded g (record ++ [(frame.node, frame.next)]) where
  counted id := by
    have hcount := h.counted id
    rw [pendingOf_follow, Graph.countInto_concat htarget]
    by_cases hid : id = target
    · rw [if_pos hid, if_pos hid]
      rw [hid] at hcount ⊢
      omega
    · rw [if_neg hid, if_neg hid]
      exact hcount
  nodup := by
    -- Entries of this frame have been recorded only before its position.
    refine List.nodup_append.mpr ⟨h.nodup, List.nodup_singleton _, fun a ha b hb hab => ?_⟩
    rw [hab, List.mem_singleton.mp hb, h.mem_iff] at ha
    exact Nat.lt_irrefl _ (ha.2.2 frame (hw ▸ List.mem_cons_self) rfl)
  mem_iff := h.mem_concat_iff hw (List.getElem?_eq_some_iff.mp htarget).1
  framesPlaced := by
    have hplaced := h.framesPlaced
    rw [hw, List.forall_mem_cons] at hplaced
    exact List.forall_mem_cons.mpr hplaced
  framesNodup := by
    have hnodup := h.framesNodup
    rw [hw] at hnodup
    exact hnodup

/-- A node that is placed has had no frame before, and none of its edges is recorded. -/
theorem Recorded.placing (h : w.Recorded g record) {id : NodeId} (hnew : id ∉ w.placed) :
    (w.placing id).Recorded g record where
  counted := h.counted
  nodup := h.nodup
  mem_iff v index := by
    rw [h.mem_iff]
    simp only [Walk.placing, List.mem_append, List.mem_singleton, List.forall_mem_cons]
    -- The new frame is at its beginning, so nothing of it has been recorded.
    by_cases hv : v = id
    · simp [hv, hnew]
    · simp [hv, Ne.symm hv]
  framesPlaced := by
    refine List.forall_mem_cons.mpr ⟨List.mem_append_right _ List.mem_cons_self, fun f hf => ?_⟩
    exact List.mem_append_left _ (h.framesPlaced f hf)
  framesNodup := by
    refine List.nodup_cons.mpr ⟨fun hmem => ?_, h.framesNodup⟩
    obtain ⟨f, hf, rfl⟩ := List.mem_map.mp hmem
    exact hnew (h.framesPlaced f hf)

/-- The target of an edge that is yet to be walked along waits for it. -/
theorem Consistent.pendingOf_pos (h : w.Consistent g) (hw : w.frames = frame :: rest)
    (hdrop : (g.targetsOf frame.node).drop frame.next =
      target :: (g.targetsOf frame.node).drop (frame.next + 1)) : 0 < w.pendingOf target := by
  rw [h.pendingEq, outstanding, hw, List.map_cons, List.sum_cons, hdrop, List.count_cons_self]
  omega

/-- A step keeps the record right if the edge that it walks along is added. -/
theorem Recorded.step {w' : Walk} (hcons : w.Consistent g) (h : w.Recorded g record)
    (hframes : w.frames ≠ []) (hstep : w.step g = .ok w') :
    w'.Recorded g (record ++ (w.edge? g).toList) := by
  obtain ⟨frame, rest, hw⟩ := List.exists_cons_of_ne_nil hframes
  rcases step_cases hw hstep with ⟨hdrop, rfl⟩ | ⟨target, hdrop, hready⟩
  · rw [edge?_of_drop_eq_nil hw hdrop, Option.toList_none, List.append_nil]
    exact h.close hw hdrop
  · obtain ⟨hentry, htarget⟩ := edge?_of_drop_eq_cons hw hdrop
    have hfollow := h.follow hw htarget (hcons.pendingOf_pos hw hdrop)
    rw [hentry]
    rcases hready with ⟨_, rfl⟩ | ⟨hready, rfl⟩
    · exact hfollow
    · exact hfollow.placing (((hcons.follow hw hdrop).isReady_iff target).mp hready).2.2

/-- A step closes a frame or walks along an edge; what it places opens a frame. -/
theorem length_step {w' : Walk} (hframes : w.frames ≠ []) (hstep : w.step g = .ok w') :
    w'.frames.length + 1 + w.placed.length =
      w.frames.length + (w.edge? g).toList.length + w'.placed.length := by
  obtain ⟨frame, rest, hw⟩ := List.exists_cons_of_ne_nil hframes
  rcases step_cases hw hstep with ⟨hdrop, rfl⟩ | ⟨target, hdrop, ⟨_, rfl⟩ | ⟨_, rfl⟩⟩
  · rw [hw, edge?_of_drop_eq_nil hw hdrop]
    rfl
  · rw [hw, (edge?_of_drop_eq_cons hw hdrop).1]
    rfl
  · rw [hw, (edge?_of_drop_eq_cons hw hdrop).1]
    simp only [Walk.placing, Walk.follow, release, List.length_append, List.length_cons,
      List.length_nil, Option.toList_some]
    omega

end Step

end Walk

/-! ## Rounds -/

/-- A moment of the walk. -/
structure Moment where
  walk : Walk
  /-- The inputs that are still to be entered. -/
  upcoming : List NodeId
  /-- The entries that have been walked along, in order. -/
  record : List (NodeId × Nat)

namespace Moment

/-- The moment before the first input. -/
def start (g : Graph) : Moment := ⟨.initial g, g.inputs, []⟩

/-- One round: a step if a frame is open, and otherwise the next input is placed. -/
def next (g : Graph) (m : Moment) : Except CompileError Moment :=
  match m.walk.frames, m.upcoming with
  | _ :: _, _ => do
    return ⟨← m.walk.step g, m.upcoming, m.record ++ (m.walk.edge? g).toList⟩
  | [], input :: upcoming =>
    if input ∈ m.walk.placed then .ok ⟨m.walk, upcoming, m.record⟩
    -- Placing the input opens a frame, with which the next round goes on.
    else do return ⟨← m.walk.place g input, upcoming, m.record⟩
  | [], [] => .ok m

/-- There is nothing left to do. -/
def IsOver (m : Moment) : Prop := m.walk.frames = [] ∧ m.upcoming = []

variable {g : Graph} {m m' : Moment}

/-- Unless nothing is left to do, a round places the next input or makes a step. -/
theorem next_cases (h : m.next g = .ok m') :
    (m.IsOver ∧ m' = m) ∨
    (∃ input upcoming, m.walk.frames = [] ∧ m.upcoming = input :: upcoming ∧
      (input ∈ m.walk.placed ∧ m' = ⟨m.walk, upcoming, m.record⟩ ∨
        input ∉ m.walk.placed ∧ m' = ⟨m.walk.placing input, upcoming, m.record⟩)) ∨
    m.walk.frames ≠ [] ∧ ∃ w', m.walk.step g = .ok w' ∧
      m' = ⟨w', m.upcoming, m.record ++ (m.walk.edge? g).toList⟩ := by
  cases hframes : m.walk.frames with
  | cons frame rest =>
    -- An open frame comes before all inputs.
    simp only [next, hframes, Except.bind_eq_ok_iff] at h
    obtain ⟨w', hstep, hm'⟩ := h
    cases hm'
    exact .inr (.inr ⟨List.cons_ne_nil _ _, w', hstep, rfl⟩)
  | nil =>
    cases hup : m.upcoming with
    | nil =>
      simp only [next, hframes, hup] at h
      cases h
      exact .inl ⟨⟨hframes, hup⟩, rfl⟩
    | cons input upcoming =>
      simp only [next, hframes, hup] at h
      refine .inr (.inl ⟨input, upcoming, rfl, rfl, ?_⟩)
      split at h
      · next hplaced =>
        cases h
        exact .inl ⟨hplaced, rfl⟩
      · next hplaced =>
        obtain ⟨w', hplace, hm'⟩ := Except.bind_eq_ok_iff.mp h
        cases hm'
        rw [(Walk.place_eq_ok_iff.mp hplace).2]
        exact .inr ⟨hplaced, rfl⟩

/-- The walk is sound, it is on its way to the end of the walk through the graph, and the record is
    right. -/
structure Sound (g : Graph) (m : Moment) : Prop where
  inv : ∃ entered, g.inputs = entered ++ m.upcoming ∧ m.walk.Inv g entered
  goesOn : (m.walk.run g >>= fun w => m.upcoming.foldlM (Walk.enter g) w) = g.walk
  recorded : m.walk.Recorded g m.record

/-- The first moment is sound. -/
theorem Sound.start (g : Graph) : (start g).Sound g where
  inv := ⟨[], rfl, .initial g⟩
  goesOn := by
    show ((Walk.initial g).run g >>= fun w => g.inputs.foldlM (Walk.enter g) w) = g.walk
    rw [Walk.run_of_frames_eq_nil rfl]
    rfl
  recorded := .initial g

/-- The next input of a sound moment has not been placed. -/
theorem Sound.of_upcoming (hg : g.WellFormed) (h : m.Sound g) {input : NodeId}
    {upcoming : List NodeId} (hup : m.upcoming = input :: upcoming) :
    ∃ entered, g.inputs = entered ++ input :: upcoming ∧ m.walk.Inv g entered ∧
      g.isInput input = true ∧ input ∉ entered ∧ input ∉ m.walk.placed := by
  obtain ⟨entered, hsplit, hinv⟩ := h.inv
  rw [hup] at hsplit
  obtain ⟨hinput, hnew⟩ := hg.input_of_split hsplit
  exact ⟨entered, hsplit, hinv, hinput, hnew, hinv.not_mem_placed hinput hnew⟩

/-- Only declared nodes are looked up, so a round does not fail. -/
theorem Sound.exists_next (hg : g.WellFormed) (h : m.Sound g) : ∃ m', m.next g = .ok m' := by
  cases hframes : m.walk.frames with
  | cons frame rest =>
    obtain ⟨_, _, hinv⟩ := h.inv
    obtain ⟨w', hstep⟩ := hinv.exists_step (hframes ▸ List.cons_ne_nil _ _)
    refine ⟨⟨w', m.upcoming, m.record ++ (m.walk.edge? g).toList⟩, ?_⟩
    simp only [next, hframes, hstep]
    rfl
  | nil =>
    cases hup : m.upcoming with
    | nil => exact ⟨m, by simp only [next, hframes, hup]⟩
    | cons input upcoming =>
      -- An input that is still to come has not been placed.
      obtain ⟨_, _, _, hinput, _, hnew⟩ := h.of_upcoming hg hup
      have hplace : m.walk.place g input = .ok (m.walk.placing input) :=
        Walk.place_eq_ok_iff.mpr ⟨Graph.mem_ids_of_hasRole hinput, rfl⟩
      refine ⟨⟨m.walk.placing input, upcoming, m.record⟩, ?_⟩
      simp only [next, hframes, hup, if_neg hnew, hplace]
      rfl

/-- A round keeps the moment sound. -/
theorem Sound.next (hg : g.WellFormed) (h : m.Sound g) (hnext : m.next g = .ok m') :
    m'.Sound g := by
  rcases next_cases hnext with ⟨_, rfl⟩ | ⟨input, upcoming, hframes, hup, hentered⟩ |
    ⟨hframes, w', hstep, rfl⟩
  · exact h
  · obtain ⟨entered, hsplit, hinv, hinput, hnew, hunplaced⟩ := h.of_upcoming hg hup
    rcases hentered with ⟨hplaced, _⟩ | ⟨_, rfl⟩
    · exact absurd hplaced hunplaced
    refine ⟨⟨entered ++ [input], ?_, hinv.placeInput hg hframes hinput hnew⟩, ?_,
      h.recorded.placing hunplaced⟩
    · rw [hsplit, List.append_assoc]
      rfl
    · -- Entering the input is placing it and then running.
      have hon := h.goesOn
      rw [hup, Walk.run_of_frames_eq_nil hframes, Except.ok_bind, List.foldlM_cons,
        hinv.enter_eq hg hframes hinput hnew] at hon
      exact hon
  · obtain ⟨entered, hsplit, hinv⟩ := h.inv
    refine ⟨⟨entered, hsplit, hinv.step hg hframes hstep⟩, ?_,
      h.recorded.step hinv.toConsistent hframes hstep⟩
    -- The step is the first one of the run.
    have hon := h.goesOn
    rw [Walk.run_of_frames_ne_nil hframes, hstep] at hon
    exact hon

/-- As long as the walk is not over, there has been one round for every input that has been placed,
    for every edge that has been walked along and for every frame that has been closed. -/
def Counted (g : Graph) (rounds : Nat) (m : Moment) : Prop :=
  m.IsOver ∨ rounds + m.walk.frames.length + m.upcoming.length =
    g.inputs.length + m.record.length + m.walk.placed.length

/-- No round has been counted at the start, … -/
theorem Counted.start (g : Graph) : (start g).Counted g 0 := by
  simp [Counted, Moment.start, Walk.initial]

/-- … and each moment counts one more. -/
theorem Counted.next {rounds : Nat} (h : m.Counted g rounds) (hnext : m.next g = .ok m') :
    m'.Counted g (rounds + 1) := by
  rcases next_cases hnext with ⟨hover, rfl⟩ | ⟨input, upcoming, hframes, hup, hentered⟩ |
    ⟨hframes, w', hstep, rfl⟩
  · exact .inl hover
  · -- One input less is to come, and if it is placed it opens a frame.
    have hrounds := h.resolve_left fun hover => by simp [hover.2] at hup
    rw [hframes, hup, List.length_nil, List.length_cons] at hrounds
    right
    rcases hentered with ⟨_, rfl⟩ | ⟨_, rfl⟩
    · show _ + m.walk.frames.length + _ = _
      rw [hframes, List.length_nil]
      dsimp only
      omega
    · simp only [Walk.placing, hframes, List.length_append, List.length_cons, List.length_nil]
      omega
  · -- A step places a node, walks along an edge or closes a frame.
    have hrounds := h.resolve_left fun hover => hframes hover.1
    have hlength := Walk.length_step hframes hstep
    right
    simp only [List.length_append]
    omega

end Moment

/-- The moment after `k` rounds. -/
def Graph.moment (g : Graph) : Nat → Except CompileError Moment
  | 0 => .ok (.start g)
  | k + 1 => g.moment k >>= Moment.next g

namespace Moment

variable {g : Graph}

/-- Every number of rounds can be made.  What holds before the first round and is kept by the rounds
    of sound moments holds at every moment. -/
theorem induction (hg : g.WellFormed) {P : Nat → Moment → Prop} (hstart : P 0 (start g))
    (hnext : ∀ k m m', m.Sound g → m.next g = .ok m' → P k m → P (k + 1) m') (k : Nat) :
    ∃ m, g.moment k = .ok m ∧ m.Sound g ∧ P k m := by
  induction k with
  | zero => exact ⟨start g, rfl, .start g, hstart⟩
  | succ k ih =>
    obtain ⟨m, hm, hsound, hP⟩ := ih
    obtain ⟨m', hm'⟩ := hsound.exists_next hg
    refine ⟨m', ?_, hsound.next hg hm', hnext k m m' hsound hm' hP⟩
    show g.moment k >>= Moment.next g = .ok m'
    rw [hm, Except.ok_bind, hm']

/-- There is a moment after any number of rounds, and it is sound. -/
private theorem exists_moment (hg : g.WellFormed) (k : Nat) :
    ∃ m, g.moment k = .ok m ∧ m.Sound g ∧ m.Counted g k :=
  induction hg (.start g) (fun _ _ _ _ hnext hcounted => hcounted.next hnext) k

/-- What has been recorded are entries of the graph, each once. -/
theorem Sound.length_record_le {m : Moment} (h : m.Sound g) :
    m.record.length ≤ g.entries.length := by
  obtain ⟨_, _, hinv⟩ := h.inv
  refine (List.subperm_of_subset h.recorded.nodup fun entry hentry => ?_).length_le
  obtain ⟨hplaced, hindex, _⟩ := (h.recorded.mem_iff entry.1 entry.2).mp hentry
  exact Graph.mem_entries.mpr ⟨hinv.placedDeclared _ hplaced, hindex⟩

/-- No more nodes are placed than there are. -/
private theorem Sound.length_placed_le {m : Moment} (h : m.Sound g) :
    m.walk.placed.length ≤ g.size := by
  obtain ⟨_, _, hinv⟩ := h.inv
  have hle : m.walk.placed.length ≤ g.ids.length :=
    (List.subperm_of_subset hinv.placedNodup hinv.placedDeclared).length_le
  rwa [Graph.ids, OrderedMap.keys, List.length_map] at hle

/-- The walk is over after at most one round for every input, every edge and every node. -/
theorem Sound.isOver {m : Moment} (h : m.Sound g)
    (hcounted : m.Counted g (g.inputs.length + g.entries.length + g.size)) : m.IsOver := by
  have hrecord := h.length_record_le
  have hplaced := h.length_placed_le
  rcases hcounted with hover | hrounds
  · exact hover
  · -- So many rounds leave no frame open and no input to come.
    exact ⟨List.length_eq_zero_iff.mp (by omega), List.length_eq_zero_iff.mp (by omega)⟩

/-- What is to be said of every moment of the walk. -/
structure Accounted (g : Graph) (m : Moment) : Prop where
  /-- From here the walk goes on to its end. -/
  goesOn : (m.walk.run g >>= fun w => m.upcoming.foldlM (Walk.enter g) w) = g.walk
  placedNodup : m.walk.placed.Nodup
  placedDeclared : ∀ id ∈ m.walk.placed, id ∈ g.ids
  /-- So the number of nodes that are not placed can be computed by subtraction. -/
  placedLength : m.walk.placed.length ≤ g.size
  /-- A node waits for all its sources but those from which an edge has been walked along. -/
  pendingEq : ∀ id ∈ g.ids, ∃ n, m.walk.pending.get? id = some n ∧
    n + g.countInto m.record id = (g.sourcesOf id).length
  /-- A count that is about to go down is not zero. -/
  releasable : ∀ entry ∈ m.walk.edge? g, ∃ id, g.targetAt entry = some id ∧
    ∃ n, m.walk.pending.get? id = some (n + 1)

/-- What a node waits for and what has been walked into it make up its sources. -/
theorem Sound.pendingEq {m : Moment} (h : m.Sound g) {id : NodeId} (hid : id ∈ g.ids) :
    ∃ n, m.walk.pending.get? id = some n ∧
      n + g.countInto m.record id = (g.sourcesOf id).length := by
  obtain ⟨_, _, hinv⟩ := h.inv
  rw [← hinv.keys, OrderedMap.mem_keys_iff, Option.isSome_iff_exists] at hid
  obtain ⟨n, hn⟩ := hid
  have hcount := h.recorded.counted id
  rw [Walk.pendingOf, hn] at hcount
  exact ⟨n, hn, hcount⟩

/-- The target of the next edge still waits for it. -/
private theorem Sound.releasable {m : Moment} (h : m.Sound g) {entry : NodeId × Nat}
    (hentry : m.walk.edge? g = some entry) :
    ∃ id, g.targetAt entry = some id ∧ ∃ n, m.walk.pending.get? id = some (n + 1) := by
  obtain ⟨_, _, hinv⟩ := h.inv
  cases hw : m.walk.frames with
  | nil => simp [Walk.edge?, hw] at hentry
  | cons frame rest =>
    obtain ⟨w', hstep⟩ := hinv.exists_step (hw ▸ List.cons_ne_nil _ _)
    rcases Walk.step_cases hw hstep with ⟨hdrop, _⟩ | ⟨target, hdrop, _⟩
    · -- A frame at its end has no edge.
      rw [Walk.edge?_of_drop_eq_nil hw hdrop] at hentry
      cases hentry
    · obtain ⟨hentry', htarget⟩ := Walk.edge?_of_drop_eq_cons hw hdrop
      cases hentry.symm.trans hentry'
      refine ⟨target, htarget, ?_⟩
      -- The edge has not been walked along, so it is one that the target waits for.
      have hwaits := hinv.pendingOf_pos hw hdrop
      rw [Walk.pendingOf] at hwaits
      cases hpending : m.walk.pending.get? target with
      | none => simp [hpending] at hwaits
      | some count =>
        rw [hpending] at hwaits
        exact ⟨count - 1, congrArg some (Nat.sub_add_cancel hwaits).symm⟩

/-- At a sound moment all edges are accounted for. -/
private theorem Sound.accounted {m : Moment} (h : m.Sound g) : m.Accounted g := by
  obtain ⟨_, _, hinv⟩ := h.inv
  exact
    { goesOn := h.goesOn
      placedNodup := hinv.placedNodup
      placedDeclared := hinv.placedDeclared
      placedLength := h.length_placed_le
      pendingEq := fun _ hid => h.pendingEq hid
      releasable := fun _ hentry => h.releasable hentry }

/-- When the walk is over, the record holds all entries of the nodes that have been placed. -/
theorem Sound.count_record {m : Moment} (h : m.Sound g) (hover : m.IsOver) (id : NodeId)
    (index : Nat) : m.record.count (id, index) =
      if id ∈ m.walk.placed ∧ index < (g.targetsOf id).length then 1 else 0 := by
  rw [h.recorded.nodup.count]
  refine if_congr ?_ rfl rfl
  rw [h.recorded.mem_iff, hover.1]
  simp

/-- The moment at which the walk is over is what the walk comes to. -/
theorem Sound.walk_eq {m : Moment} (h : m.Sound g) (hover : m.IsOver) : g.walk = .ok m.walk := by
  rw [← h.goesOn, hover.2, Walk.run_of_frames_eq_nil hover.1]
  rfl

end Moment

/-- The walk through a graph ends, on cyclic graphs too, after at most one round for every input,
    edge and node.  Until then it places no node twice, it walks along every edge from a placed node
    once and along no other edge, and at every moment the counts agree with the edges that have been
    walked along. -/
theorem Graph.walk_accounts {g : Graph} (hg : g.Built) :
    (∀ k, ∃ m, g.moment k = .ok m ∧ m.Accounted g) ∧
    ∃ last, g.moment (g.inputs.length + g.entries.length + g.size) = .ok last ∧ last.IsOver ∧
      g.walk = .ok last.walk ∧
      ∀ id index, last.record.count (id, index) =
        if id ∈ last.walk.placed ∧ index < (g.targetsOf id).length then 1 else 0 := by
  refine ⟨fun k => ?_, ?_⟩
  · obtain ⟨m, hm, hsound, _⟩ := Moment.exists_moment hg.wellFormed k
    exact ⟨m, hm, hsound.accounted⟩
  · obtain ⟨last, hlast, hsound, hcounted⟩ :=
      Moment.exists_moment hg.wellFormed (g.inputs.length + g.entries.length + g.size)
    have hover := hsound.isOver hcounted
    exact ⟨last, hlast, hover, hsound.walk_eq hover, hsound.count_record hover⟩

/-- The edges out of the input are walked once each, and that out of the stuck layer never. -/
theorem Graph.walk_accounts_loop :
    loop.Built ∧ ∃ last, loop.moment 8 = .ok last ∧ last.IsOver ∧
      last.record.count (⟨"a"⟩, 1) = 1 ∧ last.record.count (⟨"x"⟩, 0) = 0 := by
  obtain ⟨_, last, hlast, hover, _, hcount⟩ := walk_accounts loop_built
  have hplaced : (loop.moment 8).map (·.walk.placed) = .ok [⟨"a"⟩] := by cbv
  refine ⟨loop_built, last, hlast, hover, ?_⟩
  rw [show loop.moment 8 = .ok last from hlast] at hplaced
  have hplaced : last.walk.placed = [⟨"a"⟩] := Except.ok.inj hplaced
  rw [hcount, hcount, hplaced]
  exact ⟨rfl, rfl⟩

end LayerGraph
