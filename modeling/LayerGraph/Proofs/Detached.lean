import LayerGraph.Proofs.Chain

/-! # What a chain leaves out

The test for a chain looks at one node at a time.  Where every node passes it, the input begins a
path to the output, and every other component of the graph consists of layers that each take the
result of one other layer.  There are finitely many, so they form cycles.  Nothing else can be left
out of a chain, but such cycles are.

## Key results

- `Straight.cyclic_of_feeds`: in a straight graph a cycle cannot be left
- `Straight.reachable_iff_not_cyclic`: what the input of a straight graph does not lead to is on a
  cycle
- `chain_covers_acyclic`: the declared nodes that a chain leaves out are those on cycles -/

namespace LayerGraph.Graph

open Relation

namespace Straight

variable {g : Graph}

/-- A node on a cycle has its only target on the same cycle. -/
theorem cyclic_of_feeds (hg : g.WellFormed) (h : g.Straight) {s t : NodeId} (hst : g.Feeds s t)
    (hs : g.Cyclic s) : g.Cyclic t := by
  obtain ⟨u, hsu, hback⟩ := TransGen.head'_iff.mp hs
  have hut : u = t := ((leads_of_feeds hg h hst).consumers u).mp hsu
  exact .tail' (hut ▸ hback) hst

/-- A node that depends on a cycle is on it. -/
theorem cyclic_of_reflTransGen (hg : g.WellFormed) (h : g.Straight) {u id : NodeId}
    (hpath : ReflTransGen g.Feeds u id) (hu : g.Cyclic u) : g.Cyclic id := by
  induction hpath with
  | refl => exact hu
  | tail _ hedge ih => exact cyclic_of_feeds hg h hedge ih

/-- Going from each node to its source ends at the input, if it ends at all. -/
theorem reachable_of_acc (hg : g.WellFormed) (h : g.Straight) {id : NodeId}
    (hacc : Acc g.Feeds id) (hid : id ∈ g.ids) : g.Reachable id := by
  induction hacc with
  | intro v _ ih =>
    cases hinput : g.isInput v with
    | true => exact reachable_of_isInput hinput
    | false =>
      obtain ⟨s, hs⟩ := List.length_eq_one_iff.mp (h.length_sourcesOf hid hinput)
      have hfeeds : g.Feeds s v := by rw [Feeds, hs]; exact List.mem_cons_self
      exact (ih s hfeeds (hg.sourcesDeclared v s hfeeds)).tail hfeeds

/-- The input leads to all nodes that are not on a cycle, and to no others. -/
theorem reachable_iff_not_cyclic (hg : g.WellFormed) (h : g.Straight) {id : NodeId}
    (hid : id ∈ g.ids) : g.Reachable id ↔ ¬ g.Cyclic id := by
  constructor
  · intro hreach
    exact not_cyclic_of_acc (acc_of_reachable hg h hreach)
  · intro hcyclic
    apply reachable_of_acc hg h _ hid
    apply acc_of_not_cyclic hg hid
    intro u hpath hu
    exact hcyclic (cyclic_of_reflTransGen hg h hpath hu)

end Straight

/-- The input leads to what stands on a chain or at its end, and to nothing else. -/
theorem mem_chain_iff {g : Graph} (hg : g.WellFormed) {order : List NodeId} {c : Chain}
    (hschedule : g.schedule.result = .ok order) (hc : g.chain order = .ok c) (id : NodeId) :
    (id = c.input ∨ id ∈ c.layers ∨ g.isOutput id = true) ↔ g.Reachable id := by
  obtain ⟨output, houtputs, horder, _, hpath⟩ := isChain_of_chain hg hschedule hc
  rw [← or_assoc, ← List.mem_cons, ← horder, mem_schedule_iff hg hschedule]
  constructor
  · rintro (⟨hreach, _⟩ | hout)
    · exact hreach
    · -- The only output is what the last node of the chain leads to.
      have hid : id = output := by
        have hmem := (hg.memOutputs id).mpr hout
        rwa [houtputs, List.mem_singleton] at hmem
      obtain ⟨last, hlast, hleads⟩ := exists_last_of_isChain hpath
      rw [← hid] at hleads
      rw [← horder] at hlast
      have hreach := ((mem_schedule_iff hg hschedule last).mp (List.mem_of_getLast? hlast)).1
      exact hreach.tail ((hleads.consumers id).mpr rfl)
  · intro hreach
    cases hout : g.isOutput id with
    | true => exact .inr rfl
    | false => exact .inl ⟨hreach, rfl⟩

/-- The declared nodes of a graph that passes the test for a chain are its input, its layers and its
    output, and besides only layers on cycles that the input does not lead to.  So nothing is left
    out if and only if there is no cycle. -/
theorem chain_covers_acyclic {g : Graph} (hg : g.Built) {order : List NodeId} {c : Chain}
    (hschedule : g.schedule.result = .ok order) (hc : g.chain order = .ok c) :
    (∀ id ∈ g.ids, (id = c.input ∨ id ∈ c.layers ∨ g.isOutput id = true) ↔ ¬ g.Cyclic id) ∧
    ((∀ id ∈ g.ids, id = c.input ∨ id ∈ c.layers ∨ g.isOutput id = true) ↔
      ¬ ∃ id, g.Cyclic id) := by
  have hwf := hg.wellFormed
  have hnode : ∀ id ∈ g.ids,
      (id = c.input ∨ id ∈ c.layers ∨ g.isOutput id = true) ↔ ¬ g.Cyclic id := by
    intro id hid
    rw [mem_chain_iff hwf hschedule hc]
    exact (straight_of_chain hwf hc).reachable_iff_not_cyclic hwf hid
  refine ⟨hnode, ?_⟩
  constructor
  · rintro hall ⟨id, hcyclic⟩
    -- A node on a cycle is the target of an edge, and so declared.
    obtain ⟨s, _, hs⟩ := TransGen.tail'_iff.mp hcyclic
    have hid : id ∈ g.ids := mem_ids_of_mem_sourcesOf hs
    exact (hnode id hid).mp (hall id hid) hcyclic
  · intro hnone id hid
    exact (hnode id hid).mpr fun hcyclic => hnone ⟨id, hcyclic⟩

/-- A layer of the chain, and one of the cycle beside it. -/
theorem chain_covers_acyclic_line :
    line.Built ∧ line.schedule.result = .ok [⟨"a"⟩, ⟨"x"⟩, ⟨"y"⟩] ∧
      line.chain [⟨"a"⟩, ⟨"x"⟩, ⟨"y"⟩] = .ok ⟨⟨"a"⟩, [⟨"x"⟩, ⟨"y"⟩]⟩ ∧
      ¬ line.Cyclic ⟨"x"⟩ ∧ line.Cyclic ⟨"u"⟩ := by
  have hcovers := (chain_covers_acyclic line_built line_schedule line_chain).1
  refine ⟨line_built, line_schedule, line_chain, ?_, ?_⟩
  · exact (hcovers ⟨"x"⟩ (by decide)).mp (by decide)
  · exact not_not.mp fun hnot => absurd ((hcovers ⟨"u"⟩ (by decide)).mpr hnot) (by decide)

/-- A graph can pass the test for a chain and have layers that are not on it. -/
theorem chain_not_exhaustive :
    ¬ ∀ g : Graph, g.Built → ∀ order c, g.schedule.result = .ok order → g.chain order = .ok c →
      ∀ id ∈ g.ids, id = c.input ∨ id ∈ c.layers ∨ g.isOutput id = true := by
  intro hall
  have hu := hall line line_built _ _ line_schedule line_chain ⟨"u"⟩ (by decide)
  exact absurd hu (by decide)

end LayerGraph.Graph
