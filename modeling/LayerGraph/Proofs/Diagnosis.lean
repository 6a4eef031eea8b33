import LayerGraph.Proofs.Reordering

/-! # Why there is no schedule

If an input leads to nodes that can never be placed, the error lists these nodes and the sources
that they wait for in vain.  The two lists explain the failure completely: each of the nodes waits
for another one of them or for something that no input leads to, and if there is nothing of the
latter sort, some of the nodes wait for each other in a circle.

At the end of the walk every node that was left behind has a source that was left behind.  To find
the circle, a path of such nodes is extended backwards, from each node to one of its sources.  There
are only finitely many of them, so at some point the path meets itself.

## Key results

- `Finished.exists_unplaced_source`: what a node that was left behind waits for
- `exists_isCycle`: nodes that only take something from each other contain a cycle
- `pairwise_blockers`: the order in which the sources are listed
- `schedule_explained`: what the error says about the graph -/

namespace List

variable {α : Type} [DecidableEq α]

/-- Leaving out other elements does not change which of two elements comes first. -/
theorem idxOf_lt_of_idxOf_filter_lt {p : α → Bool} {a b : α} (hb : p b = true) (l : List α)
    (h : (l.filter p).idxOf a < (l.filter p).idxOf b) : l.idxOf a < l.idxOf b := by
  induction l with
  | nil => simp at h
  | cons x l ih =>
    by_cases hxb : x = b
    · -- Nothing comes before the first element.
      rw [hxb, filter_cons_of_pos hb, idxOf_cons_self] at h
      omega
    · rw [idxOf_cons_ne _ hxb]
      by_cases hxa : x = a
      · rw [hxa, idxOf_cons_self]
        omega
      · rw [idxOf_cons_ne _ hxa]
        apply Nat.succ_lt_succ
        apply ih
        -- Whether `x` is kept or not, the order of `a` and `b` among the others is the same.
        cases hx : p x with
        | true =>
          rw [filter_cons_of_pos hx, idxOf_cons_ne _ hxa, idxOf_cons_ne _ hxb] at h
          omega
        | false => rwa [filter_cons_of_neg (by simp [hx])] at h

/-- Of equal elements the first one is kept, so what is left comes in the order of the first
    occurrences. -/
theorem pairwise_idxOf_eraseDups (l : List α) :
    l.eraseDups.Pairwise fun a b => l.idxOf a < l.idxOf b := by
  match l with
  | [] => exact .nil
  | x :: xs =>
    rw [eraseDups_cons, pairwise_cons]
    -- What is left behind the first element is different from it.
    have hne : ∀ c ∈ (xs.filter fun b => !b == x).eraseDups, x ≠ c := by
      rintro c hc rfl
      simp at hc
    constructor
    · intro b hb
      rw [idxOf_cons_self, idxOf_cons_ne _ (hne b hb)]
      omega
    · apply (pairwise_idxOf_eraseDups (xs.filter fun b => !b == x)).imp_of_mem
      intro a b ha hb hlt
      rw [idxOf_cons_ne _ (hne a ha), idxOf_cons_ne _ (hne b hb)]
      apply Nat.succ_lt_succ
      have hkept := (mem_filter.mp (mem_eraseDups.mp hb)).2
      exact idxOf_lt_of_idxOf_filter_lt (p := fun c => !c == x) hkept xs hlt
termination_by l.length
decreasing_by exact Nat.lt_succ_of_le (length_filter_le _ _)

end List

namespace LayerGraph.Graph

/-! ## Cycles -/

/-- Each node of the list takes the result of the one before it, and the first that of the last. -/
structure IsCycle (g : Graph) (cycle : List NodeId) : Prop where
  nonempty : cycle ≠ []
  nodup : cycle.Nodup
  path : cycle.IsChain g.Feeds
  closed : ∀ first ∈ cycle.head?, ∀ last ∈ cycle.getLast?, g.Feeds last first

/-- A path that can always be extended backwards within finitely many nodes meets itself. -/
theorem exists_isCycle {g : Graph} {nodes : List NodeId}
    (hsources : ∀ id ∈ nodes, ∃ s ∈ nodes, g.Feeds s id) (first : NodeId) (rest : List NodeId)
    (hpath : (first :: rest).IsChain g.Feeds) (hnodup : (first :: rest).Nodup)
    (hsub : first :: rest ⊆ nodes) : ∃ cycle, g.IsCycle cycle ∧ cycle ⊆ nodes := by
  obtain ⟨s, hs, hfeeds⟩ := hsources first (hsub List.mem_cons_self)
  by_cases hmem : s ∈ first :: rest
  · -- The path has met itself: its part up to `s` is the cycle.
    obtain ⟨before, after, hsplit⟩ := List.append_of_mem hmem
    have hpart : before ++ [s] <+: first :: rest := by
      rw [hsplit]
      exact ⟨after, by simp⟩
    refine ⟨before ++ [s], ⟨by simp, hnodup.sublist hpart.sublist, ?_, ?_⟩, ?_⟩
    · exact List.IsChain.prefix hpath hpart
    · intro head hhead last hlast
      have hlast' : s = last := by simpa using hlast
      have hhead' : first = head := by
        have hstart : (first :: rest).head? = (before ++ [s]).head? := by simp [hsplit]
        rw [Option.mem_def.mp hhead] at hstart
        exact Option.some.inj hstart
      rw [← hlast', ← hhead']
      exact hfeeds
    · exact fun id hid => hsub (hpart.subset hid)
  · -- The path grows by `s`, which can go on only as long as there are nodes.
    have hnodup' : (s :: first :: rest).Nodup := List.nodup_cons.mpr ⟨hmem, hnodup⟩
    have hsub' : s :: first :: rest ⊆ nodes := List.cons_subset.mpr ⟨hs, hsub⟩
    have hlen : (s :: first :: rest).length ≤ nodes.length := (hnodup'.subperm hsub').length_le
    exact exists_isCycle hsources s (first :: rest) (.cons_cons hfeeds hpath) hnodup' hsub'
termination_by nodes.length - rest.length
decreasing_by
  simp only [List.length_cons] at hlen ⊢
  omega

/-! ## The two lists of the error -/

/-- At the end of the walk a reachable node that has not been placed has a source that has not been
    placed either. -/
theorem Finished.exists_unplaced_source {g : Graph} {w : Walk} {reached : List NodeId}
    (hg : g.WellFormed) (h : g.Finished w reached) {id : NodeId} (hreach : g.Reachable id)
    (hid : id ∉ w.placed) : ∃ s, g.Feeds s id ∧ s ∉ w.placed := by
  rw [h.inv.mem_placed_iff hg h.frames] at hid
  push Not at hid
  rcases hreach.cases with hinput | ⟨s, _, hs⟩
  · exact absurd hinput hid.1
  · exact hid.2 (List.ne_nil_of_mem hs)

/-- Each source that nodes wait for is listed where the source lists of the nodes have it first. -/
theorem pairwise_blockers (g : Graph) (reached nodes : List NodeId) :
    (g.blockers reached nodes).Pairwise fun s t =>
      (nodes.flatMap g.sourcesOf).idxOf s < (nodes.flatMap g.sourcesOf).idxOf t := by
  apply (List.pairwise_idxOf_eraseDups _).imp_of_mem
  intro s t _ ht hlt
  have hunreached := (List.mem_filter.mp (List.mem_eraseDups.mp ht)).2
  exact List.idxOf_lt_of_idxOf_filter_lt (p := fun id => id ∉ reached) hunreached _ hlt

/-- The list `nodes` holds nodes that can never be placed, and `blockedBy` the sources that they
    wait for although no input leads to these. -/
structure Explains (g : Graph) (nodes blockedBy : List NodeId) : Prop where
  nonempty : nodes ≠ []
  blockedNodup : blockedBy.Nodup
  memBlocked : ∀ s, s ∈ blockedBy ↔ (∃ t ∈ nodes, g.Feeds s t) ∧ ¬ g.Reachable s
  /-- The sources come in the order in which the source lists of the nodes have them first. -/
  blockedOrder : blockedBy.Pairwise fun s t =>
    (nodes.flatMap g.sourcesOf).idxOf s < (nodes.flatMap g.sourcesOf).idxOf t
  disjoint : ∀ id ∈ nodes, id ∉ blockedBy
  waits : ∀ id ∈ nodes, ∃ s, g.Feeds s id ∧ (s ∈ nodes ∨ s ∈ blockedBy)
  cycle : blockedBy = [] → ∃ cycle, g.IsCycle cycle ∧ cycle ⊆ nodes

/-- What the walk has left behind, and what that waits for in vain, explain each other. -/
theorem Finished.explains_stalled {g : Graph} {w : Walk} {reached : List NodeId}
    (hg : g.WellFormed) (h : g.Finished w reached) {nodes : List NodeId}
    (hnodes : nodes = g.stalled reached w.placed) (hne : nodes ≠ []) :
    g.Explains nodes (g.blockers reached nodes) := by
  have hmem : ∀ id, id ∈ nodes ↔ g.Reachable id ∧ id ∉ w.placed := fun id =>
    hnodes ▸ h.mem_stalled
  have hwaits : ∀ id ∈ nodes, ∃ s, g.Feeds s id ∧ (s ∈ nodes ∨ s ∈ g.blockers reached nodes) := by
    intro id hid
    obtain ⟨hreach, hunplaced⟩ := (hmem id).mp hid
    obtain ⟨s, hs, hsunplaced⟩ := h.exists_unplaced_source hg hreach hunplaced
    -- Whether an input leads to the source decides in which of the lists it is.
    by_cases hsreach : g.Reachable s
    · exact ⟨s, hs, .inl ((hmem s).mpr ⟨hsreach, hsunplaced⟩)⟩
    · exact ⟨s, hs, .inr (h.mem_blockers.mpr ⟨⟨id, hid, hs⟩, hsreach⟩)⟩
  refine ⟨hne, nodup_blockers g _ _, fun s => h.mem_blockers, pairwise_blockers g _ _, ?_, hwaits,
    ?_⟩
  · intro id hid hblocked
    exact (h.mem_blockers.mp hblocked).2 ((hmem id).mp hid).1
  · intro hnil
    obtain ⟨id, hid⟩ := List.exists_mem_of_ne_nil _ hne
    -- If nothing blocks a node, it waits for another one that waits.
    have hsources : ∀ t ∈ nodes, ∃ s ∈ nodes, g.Feeds s t := by
      intro t ht
      obtain ⟨s, hs, hsmem⟩ := hwaits t ht
      rw [hnil] at hsmem
      exact ⟨s, hsmem.resolve_right List.not_mem_nil, hs⟩
    apply exists_isCycle hsources id []
    · exact .singleton id
    · exact List.nodup_singleton id
    · simpa using hid

/-- If there is no schedule for a graph with inputs, the error explains why: all nodes that it lists
    wait for each other or for sources that no input leads to, which it lists too. -/
theorem schedule_explained {g : Graph} (hg : g.Built) {nodes blockedBy : List NodeId}
    (h : g.schedule.result = .error (.cyclicGraph nodes blockedBy)) :
    g.Explains nodes blockedBy := by
  have hinputs : g.inputs ≠ [] := mt schedule_of_no_inputs (by simp [h])
  obtain ⟨w, reached, hfinished, hresult⟩ := schedule_of_inputs hg.wellFormed hinputs
  rw [hresult] at h
  dsimp only at h
  -- The error is that of a walk that has left something.
  split at h
  · cases h
  · next hne =>
    cases h
    exact hfinished.explains_stalled hg.wellFormed rfl hne

/-- A layer that waits for two layers without inputs, one of them twice, beside two layers that wait
    for each other. -/
def tangle : Graph where
  nodes := ⟨[
    (⟨"z"⟩, ⟨"Add", ∅, [⟨"p"⟩, ⟨"a"⟩, ⟨"q"⟩, ⟨"p"⟩], [⟨"o"⟩]⟩),
    (⟨"a"⟩, ⟨"Input", ∅, [], [⟨"z"⟩, ⟨"x"⟩]⟩),
    (⟨"x"⟩, ⟨"Add", ∅, [⟨"a"⟩, ⟨"y"⟩], [⟨"y"⟩]⟩),
    (⟨"y"⟩, ⟨"Dense", ∅, [⟨"x"⟩], [⟨"x"⟩]⟩),
    (⟨"q"⟩, ⟨"Dense", ∅, [], [⟨"z"⟩, ⟨"p"⟩]⟩),
    (⟨"p"⟩, ⟨"Dense", ∅, [⟨"q"⟩], [⟨"z"⟩, ⟨"z"⟩]⟩),
    (⟨"o"⟩, ⟨"Output", ∅, [⟨"z"⟩], []⟩)], by decide⟩
  inputs := [⟨"a"⟩]
  outputs := [⟨"o"⟩]

/-- Nodes that wait for unreachable sources, and a cycle where there are none. -/
theorem schedule_explained_tangle :
    tangle.Built ∧
      tangle.schedule.result =
        .error (.cyclicGraph [⟨"z"⟩, ⟨"x"⟩, ⟨"y"⟩, ⟨"o"⟩] [⟨"p"⟩, ⟨"q"⟩]) ∧
      tangle.Explains [⟨"z"⟩, ⟨"x"⟩, ⟨"y"⟩, ⟨"o"⟩] [⟨"p"⟩, ⟨"q"⟩] ∧
      loop.Built ∧ loop.schedule.result = .error (.cyclicGraph [⟨"x"⟩, ⟨"y"⟩] []) ∧
      ∃ cycle, loop.IsCycle cycle ∧ cycle ⊆ [⟨"x"⟩, ⟨"y"⟩] := by
  have hbuilt : tangle.Built := .descriptions [
    ⟨⟨"z"⟩, "Add", ∅, [⟨"p"⟩, ⟨"a"⟩, ⟨"q"⟩, ⟨"p"⟩], none⟩,
    ⟨⟨"a"⟩, "Input", ∅, [], none⟩,
    ⟨⟨"x"⟩, "Add", ∅, [⟨"a"⟩, ⟨"y"⟩], none⟩,
    ⟨⟨"y"⟩, "Dense", ∅, [⟨"x"⟩], none⟩,
    ⟨⟨"q"⟩, "Dense", ∅, [], none⟩,
    ⟨⟨"p"⟩, "Dense", ∅, [⟨"q"⟩], none⟩,
    ⟨⟨"o"⟩, "Output", ∅, [⟨"z"⟩], none⟩] rfl
  have hresult : tangle.schedule.result =
      .error (.cyclicGraph [⟨"z"⟩, ⟨"x"⟩, ⟨"y"⟩, ⟨"o"⟩] [⟨"p"⟩, ⟨"q"⟩]) := by cbv
  have hresult' : loop.schedule.result = .error (.cyclicGraph [⟨"x"⟩, ⟨"y"⟩] []) := by cbv
  exact ⟨hbuilt, hresult, schedule_explained hbuilt hresult, loop_built, hresult',
    (schedule_explained loop_built hresult').cycle rfl⟩

end LayerGraph.Graph
