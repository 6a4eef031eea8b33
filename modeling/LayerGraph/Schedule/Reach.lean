import LayerGraph.Graph

/-! # Reachable nodes

Which nodes the inputs of a graph lead to, found with a queue of nodes whose targets have not been
looked at.  The search ends because a node joins the queue only when it is seen for the first time,
and besides the inputs only targets are ever seen. -/

namespace LayerGraph.Graph

/-- The targets that have not been seen, each once. -/
def freshTargets (seen : List NodeId) : List NodeId → List NodeId
  | [] => []
  | t :: targets =>
    if t ∈ seen then freshTargets seen targets else t :: freshTargets (seen ++ [t]) targets

/-- The entries in the target lists of a graph that have not been seen. -/
def unseen (g : Graph) (seen : List NodeId) : List NodeId :=
  (g.nodes.entries.flatMap fun e => e.2.targets).filter fun t => t ∉ seen

/-- With a new target there is less left to see. -/
private theorem length_unseen_concat_lt {g : Graph} {seen : List NodeId} {t : NodeId}
    (ht : t ∈ g.nodes.entries.flatMap fun e => e.2.targets) (hnew : t ∉ seen) :
    (g.unseen (seen ++ [t])).length < (g.unseen seen).length := by
  have hunseen : g.unseen (seen ++ [t]) = (g.unseen seen).filter fun t' => t' ≠ t := by
    simp only [unseen, List.filter_filter]
    refine List.filter_congr fun t' _ => ?_
    simp [and_comm]
  rw [hunseen]
  refine List.length_filter_lt_length_iff_exists.mpr ⟨t, ?_, by simp⟩
  exact List.mem_filter.mpr ⟨ht, by simpa using hnew⟩

/-- Seeing the fresh ones among some targets leaves that many fewer entries unseen. -/
theorem length_unseen_freshTargets (g : Graph) {targets : List NodeId}
    (h : ∀ t ∈ targets, t ∈ g.nodes.entries.flatMap fun e => e.2.targets) (seen : List NodeId) :
    (g.unseen (seen ++ freshTargets seen targets)).length + (freshTargets seen targets).length ≤
      (g.unseen seen).length := by
  induction targets generalizing seen with
  | nil => simp [freshTargets]
  | cons t targets ih =>
    rw [List.forall_mem_cons] at h
    rw [freshTargets]
    split
    · exact ih h.2 seen
    · next hnew =>
      -- A fresh target is seen from here on, so one less is unseen.
      have hrest := ih h.2 (seen ++ [t])
      have hlt := length_unseen_concat_lt h.1 hnew
      rw [List.append_assoc, List.singleton_append] at hrest
      rw [List.length_cons]
      omega

/-- The targets of a node are among the targets in the graph. -/
private theorem mem_flatMap_targets {g : Graph} {id : NodeId} {n : Node} (hn : g.node id = .ok n) :
    ∀ t ∈ n.targets, t ∈ g.nodes.entries.flatMap fun e => e.2.targets := by
  intro t ht
  rw [node] at hn
  split at hn
  · next n' hget =>
    cases hn
    exact List.mem_flatMap.mpr ⟨(id, n), (g.nodes.get?_eq_some_iff id n).mp hget, ht⟩
  · cases hn

/-- Adds to the seen nodes all that the nodes of the queue lead to. -/
def reachFrom (g : Graph) (seen queue : List NodeId) : Except CompileError (List NodeId) :=
  match queue with
  | [] => .ok seen
  | id :: queue =>
    match _hn : g.node id with
    | .error e => .error e
    | .ok n =>
      let fresh := freshTargets seen n.targets
      reachFrom g (seen ++ fresh) (queue ++ fresh)
termination_by (g.unseen seen).length + queue.length
decreasing_by
  have := length_unseen_freshTargets g (mem_flatMap_targets _hn) seen
  simp only [List.length_append, List.length_cons]
  omega

/-- The nodes that the inputs lead to, the inputs included. -/
def reachable (g : Graph) : Except CompileError (List NodeId) := g.reachFrom g.inputs g.inputs

end LayerGraph.Graph
