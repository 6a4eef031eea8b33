import LayerGraph.Proofs.WellFormed
import LayerGraph.Schedule.Reach
import Mathlib.Logic.Relation

/-! # Reachable nodes

`Reachable` says what it means that an input leads to a node, and `exists_reachable` that the search
with a queue finds just these nodes.  The search keeps two facts: what it has seen can be reached,
and the targets of a seen node have been seen too, unless the node is still in the queue.  It looks
up the nodes of the queue, which are inputs and targets and therefore declared, so it does not
fail. -/

namespace LayerGraph.Graph

open Relation

/-- Some input leads to the node along the edges of the graph. -/
def Reachable (g : Graph) (id : NodeId) : Prop :=
  ∃ i, g.isInput i = true ∧ ReflTransGen g.Feeds i id

/-- Whatever takes the result of a reachable node is reachable. -/
theorem Reachable.tail {g : Graph} {s t : NodeId} (hs : g.Reachable s) (h : g.Feeds s t) :
    g.Reachable t := by
  obtain ⟨i, hi, hpath⟩ := hs
  exact ⟨i, hi, hpath.tail h⟩

theorem reachable_of_isInput {g : Graph} {id : NodeId} (h : g.isInput id = true) :
    g.Reachable id := ⟨id, h, .refl⟩

/-- A reachable node is an input or has a reachable source. -/
theorem Reachable.cases {g : Graph} {id : NodeId} (h : g.Reachable id) :
    g.isInput id = true ∨ ∃ s, g.Reachable s ∧ g.Feeds s id := by
  obtain ⟨i, hi, hpath⟩ := h
  cases hpath with
  | refl => exact .inl hi
  | tail hpath hedge => exact .inr ⟨_, ⟨i, hi, hpath⟩, hedge⟩

/-- Only declared nodes are reachable. -/
theorem Reachable.mem_ids {g : Graph} {id : NodeId} (h : g.Reachable id) : id ∈ g.ids := by
  rcases h.cases with hi | ⟨s, _, hs⟩
  · exact mem_ids_of_hasRole hi
  · exact mem_ids_of_mem_sourcesOf hs

/-! ## The search -/

/-- The fresh targets are those that have not been seen. -/
private theorem mem_freshTargets {seen targets : List NodeId} {t : NodeId} :
    t ∈ freshTargets seen targets ↔ t ∈ targets ∧ t ∉ seen := by
  induction targets generalizing seen with
  | nil => simp [freshTargets]
  | cons t' targets ih =>
    rw [freshTargets]
    split
    · next hseen =>
      rw [ih, List.mem_cons]
      grind
    · next hnew =>
      rw [List.mem_cons, ih, List.mem_cons, List.mem_append, List.mem_singleton]
      grind

/-- One round of the search: the first node of the queue is looked up, and its fresh targets join
    the queue. -/
theorem reachFrom_cons (g : Graph) (seen : List NodeId) (id : NodeId) (queue : List NodeId) :
    g.reachFrom seen (id :: queue) = g.node id >>= fun n =>
      g.reachFrom (seen ++ freshTargets seen n.targets) (queue ++ freshTargets seen n.targets) := by
  rw [reachFrom]
  split
  · next e hn => rw [hn]; rfl
  · next n hn => rw [hn]; rfl

/-- Only declared nodes are looked up, so the search comes to an end. -/
theorem exists_reachFrom {g : Graph} (hg : g.WellFormed) (seen queue : List NodeId)
    (hqueue : ∀ x ∈ queue, x ∈ g.ids) : ∃ found, g.reachFrom seen queue = .ok found := by
  fun_induction reachFrom g seen queue with
  | case1 seen => exact ⟨seen, rfl⟩
  | case2 seen id queue e hn =>
    -- Everything in the queue is declared, so no lookup fails.
    obtain ⟨n, hn'⟩ := exists_node_iff.mpr (hqueue id List.mem_cons_self)
    rw [hn] at hn'
    cases hn'
  | case3 seen id queue n hn fresh ih =>
    rw [node_eq_ok_iff] at hn
    apply ih
    intro x hx
    rcases List.mem_append.mp hx with hx | hx
    · exact hqueue x (List.mem_cons_of_mem _ hx)
    · have ht : x ∈ g.targetsOf id := targetsOf_of_get? hn ▸ (mem_freshTargets.mp hx).1
      exact hg.targetsDeclared id x ht

section Found

variable {g : Graph} {found : List NodeId}

/-- The search keeps every property that goes from a node to its targets. -/
theorem reachFrom_sound {P : NodeId → Prop} (hstep : ∀ s t, P s → t ∈ g.targetsOf s → P t)
    (seen queue : List NodeId) (h : g.reachFrom seen queue = .ok found) (hseen : ∀ x ∈ seen, P x)
    (hqueue : ∀ x ∈ queue, P x) : ∀ x ∈ found, P x := by
  fun_induction reachFrom g seen queue with
  | case1 seen =>
    cases h
    exact hseen
  | case2 seen id queue e hn => cases h
  | case3 seen id queue n hn fresh ih =>
    rw [node_eq_ok_iff] at hn
    -- The fresh targets join both lists; they come from `id`, which stood in the queue.
    have hfresh : ∀ x ∈ fresh, P x := by
      intro x hx
      have ht : x ∈ g.targetsOf id := targetsOf_of_get? hn ▸ (mem_freshTargets.mp hx).1
      exact hstep id x (hqueue id List.mem_cons_self) ht
    refine ih h (fun x hx => ?_) (fun x hx => ?_)
    · exact (List.mem_append.mp hx).elim (hseen x) (hfresh x)
    · refine (List.mem_append.mp hx).elim (fun hx => ?_) (hfresh x)
      exact hqueue x (List.mem_cons_of_mem _ hx)

/-- What has been seen stays found. -/
private theorem mem_found_of_mem_seen {x : NodeId} (seen queue : List NodeId)
    (h : g.reachFrom seen queue = .ok found) (hx : x ∈ seen) : x ∈ found := by
  fun_induction reachFrom g seen queue with
  | case1 seen =>
    cases h
    exact hx
  | case2 seen id queue e hn => cases h
  | case3 seen id queue n hn fresh ih => exact ih h (List.mem_append_left _ hx)

/-- What the search finds is closed under going to targets. -/
theorem reachFrom_closed (seen queue : List NodeId) (hfound : g.reachFrom seen queue = .ok found)
    (h : ∀ x ∈ seen, x ∈ queue ∨ ∀ t ∈ g.targetsOf x, t ∈ seen) :
    ∀ x ∈ found, ∀ t ∈ g.targetsOf x, t ∈ found := by
  fun_induction reachFrom g seen queue with
  | case1 seen =>
    -- Nothing is waiting, so every node that was seen has its targets seen.
    cases hfound
    intro x hx
    exact (h x hx).resolve_left List.not_mem_nil
  | case2 seen id queue e hn => cases hfound
  | case3 seen id queue n hn fresh ih =>
    rw [node_eq_ok_iff] at hn
    refine ih hfound fun x hx => ?_
    rcases List.mem_append.mp hx with hx | hx
    · rcases h x hx with hq | hclosed
      · rcases List.mem_cons.mp hq with rfl | hq
        · -- The node whose turn it was: a target that was not seen is now fresh.
          refine .inr fun t ht => ?_
          rw [targetsOf_of_get? hn] at ht
          by_cases hseen : t ∈ seen
          · exact List.mem_append_left _ hseen
          · exact List.mem_append_right _ (mem_freshTargets.mpr ⟨ht, hseen⟩)
        · exact .inl (List.mem_append_left _ hq)
      · exact .inr fun t ht => List.mem_append_left _ (hclosed t ht)
    · -- A fresh node waits for its turn.
      exact .inl (List.mem_append_right _ hx)

end Found

/-- The search finds exactly the nodes that an input leads to. -/
theorem exists_reachable {g : Graph} (hg : g.WellFormed) :
    ∃ reached, g.reachable = .ok reached ∧ ∀ id, id ∈ reached ↔ g.Reachable id := by
  obtain ⟨reached, hreached⟩ :=
    exists_reachFrom hg g.inputs g.inputs fun i hi => hg.mem_ids_of_mem_inputs hi
  have hinput : ∀ i ∈ g.inputs, g.Reachable i := fun i hi =>
    reachable_of_isInput ((hg.memInputs i).mp hi)
  refine ⟨reached, hreached, fun id => ⟨fun h => ?_, ?_⟩⟩
  · -- Everything found is reachable: reachability is passed on to targets.
    have hstep : ∀ s t, g.Reachable s → t ∈ g.targetsOf s → g.Reachable t := fun s t hs ht =>
      hs.tail (hg.mem_targetsOf.mp ht)
    exact reachFrom_sound hstep g.inputs g.inputs hreached hinput hinput id h
  · intro ⟨i, hi, hpath⟩
    -- From the input along the path; at the start all that has been seen is in the queue.
    induction hpath with
    | refl => exact mem_found_of_mem_seen _ _ hreached ((hg.memInputs i).mpr hi)
    | tail _ hedge ih =>
      exact reachFrom_closed _ _ hreached (fun x hx => .inl hx) _ ih _ (hg.mem_targetsOf.mpr hedge)

end LayerGraph.Graph
