import LayerGraph.Proofs.Outcome

/-! # Chains are paths

The test for a chain counts the edges of every node, and takes the schedule without the input for
the layers.  That the layers then lie one behind the other on the way from the input to the output
is a fact about the whole graph.  Where every node has at most one source, nothing that the input
leads to can be on a cycle, so there is a schedule.  Where every node has at most one target too, a
scheduled node can only take the result of the one right before it, as the earlier ones have their
targets already; and the target of the last node cannot have been scheduled, so it is the output.

## Key results

- `Straight.leads_of_feeds`: in a straight graph an edge leaves no room for others
- `Straight.schedule_isChain`: the schedule of a straight graph is the path to its output
- `straight_of_chain`: a graph that passes the test for a chain is straight
- `chain_isPath`: what both mean for the program -/

namespace LayerGraph.Graph

open Relation

/-- The node `t` is the only target of `s` and alone takes its result, and it takes nothing else. -/
structure Leads (g : Graph) (s t : NodeId) : Prop where
  targets : g.targetsOf s = [t]
  consumers : ∀ id, g.Feeds s id ↔ id = t
  sources : g.sourcesOf t = [s]

/-- There is one input and one output, and every node has just the edges that its place on a line
    from the one to the other asks for. -/
structure Straight (g : Graph) : Prop where
  oneInput : ∃! id, g.isInput id = true
  oneOutput : ∃! id, g.isOutput id = true
  inputDegrees : ∀ id, g.isInput id = true →
    (g.sourcesOf id).length = 0 ∧ (g.targetsOf id).length = 1
  outputDegrees : ∀ id, g.isOutput id = true →
    (g.sourcesOf id).length = 1 ∧ (g.targetsOf id).length = 0
  layerDegrees : ∀ id ∈ g.ids, g.isInput id = false → g.isOutput id = false →
    (g.sourcesOf id).length = 1 ∧ (g.targetsOf id).length = 1

namespace Straight

variable {g : Graph}

/-- In a straight graph all but the input take one result, … -/
theorem length_sourcesOf (h : g.Straight) {id : NodeId} (hid : id ∈ g.ids)
    (hinput : g.isInput id = false) : (g.sourcesOf id).length = 1 := by
  cases hout : g.isOutput id with
  | true => exact (h.outputDegrees id hout).1
  | false => exact (h.layerDegrees id hid hinput hout).1

/-- … and all but the output have one target. -/
private theorem length_targetsOf (h : g.Straight) {id : NodeId} (hid : id ∈ g.ids)
    (hout : g.isOutput id = false) : (g.targetsOf id).length = 1 := by
  cases hinput : g.isInput id with
  | true => exact (h.inputDegrees id hinput).2
  | false => exact (h.layerDegrees id hid hinput hout).2

/-- In a straight graph an edge is the only one of both its ends. -/
theorem leads_of_feeds (hg : g.WellFormed) (h : g.Straight) {s t : NodeId} (hst : g.Feeds s t) :
    g.Leads s t := by
  have hs : s ∈ g.ids := hg.sourcesDeclared t s hst
  have ht : t ∈ g.ids := mem_ids_of_mem_sourcesOf hst
  have htargets : g.targetsOf s = [t] :=
    List.eq_singleton_of_mem (h.length_targetsOf hs (hg.outputNoSource t s hst))
      (hg.mem_targetsOf.mpr hst)
  have hsources : g.sourcesOf t = [s] :=
    List.eq_singleton_of_mem (h.length_sourcesOf ht (hg.isInput_of_feeds hst)) hst
  refine ⟨htargets, fun id => ?_, hsources⟩
  rw [← hg.mem_targetsOf, htargets, List.mem_singleton]

/-! ## There is a schedule -/

/-- Going back from a reachable node ends at the input. -/
theorem acc_of_reachable (hg : g.WellFormed) (h : g.Straight) {id : NodeId}
    (hreach : g.Reachable id) : Acc g.Feeds id := by
  obtain ⟨i, hi, hpath⟩ := hreach
  induction hpath with
  | refl =>
    refine Acc.intro i fun s hs => ?_
    rw [Feeds, hg.inputSources i hi] at hs
    cases hs
  | @tail v t _ hvt ih =>
    -- The node that the path came from is the only source.
    have hsources : g.sourcesOf t = [v] := (leads_of_feeds hg h hvt).sources
    refine Acc.intro t fun s hs => ?_
    rw [Feeds, hsources, List.mem_singleton] at hs
    exact hs ▸ ih

/-- Nothing that the input leads to is stuck. -/
private theorem not_stuck (hg : g.WellFormed) (h : g.Straight) :
    ¬ ∃ id, g.Reachable id ∧ g.Stuck id := by
  intro ⟨id, hreach, u, hpath, hu⟩
  rcases hu with hcyclic | ⟨hids, hinput, hsources⟩
  · have hacc : Acc g.Feeds u := by
      rcases reflTransGen_iff_eq_or_transGen.mp hpath with rfl | hpath
      · exact acc_of_reachable hg h hreach
      · exact (acc_of_reachable hg h hreach).inv_of_transGen hpath
    exact not_cyclic_of_acc hacc hcyclic
  · have hlen := h.length_sourcesOf hids hinput
    rw [hsources] at hlen
    cases hlen

/-! ## The schedule is a path -/

/-- If sources come first and only the first node is an input, every node leads to the next. -/
theorem isChain_of_ordered (hg : g.WellFormed) (h : g.Straight) {first : NodeId}
    {rest : List NodeId} (hordered : g.Ordered (first :: rest)) (hnodup : (first :: rest).Nodup)
    (hids : ∀ id ∈ rest, id ∈ g.ids) (hrest : ∀ id ∈ rest, g.isInput id = false) :
    (first :: rest).IsChain g.Leads := by
  induction rest using List.reverseRecOn with
  | nil => exact .singleton first
  | append_singleton rest x ih =>
    -- A node is added at the end: its only source is in the list already.
    rw [← List.cons_append] at hordered hnodup ⊢
    have hx : x ∈ rest ++ [x] := List.mem_append_right _ List.mem_cons_self
    have hchain : (first :: rest).IsChain g.Leads :=
      ih hordered.of_append (List.nodup_append.mp hnodup).1
        (fun id hid => hids id (List.mem_append_left _ hid))
        fun id hid => hrest id (List.mem_append_left _ hid)
    obtain ⟨s, hs⟩ := List.length_eq_one_iff.mp (h.length_sourcesOf (hids x hx) (hrest x hx))
    have hfeeds : g.Feeds s x := by rw [Feeds, hs]; exact List.mem_cons_self
    have hleads := leads_of_feeds hg h hfeeds
    have hearlier : s ∈ first :: rest := hordered (first :: rest) x [] rfl s hfeeds
    have hnew : x ∉ first :: rest := fun hmem =>
      (List.nodup_append.mp hnodup).2.2 x hmem x List.mem_cons_self rfl
    refine List.isChain_append.mpr ⟨hchain, .singleton x, fun y hy z hz => ?_⟩
    cases hz
    -- An earlier source than the last node would have another target.
    rcases hchain.mem_getLast?_or_exists hearlier with hlast | ⟨b, hb, hsb⟩
    · have hsy : s = y := Option.some.inj (hlast.symm.trans hy)
      exact hsy ▸ hleads
    · have hxb : x = b := (hsb.consumers x).mp hfeeds
      exact absurd (hxb ▸ hb) hnew

/-- The schedule of a straight graph begins with the input. -/
theorem exists_schedule (hg : g.WellFormed) (h : g.Straight) :
    ∃ input layers, g.inputs = [input] ∧ g.schedule.result = .ok (input :: layers) ∧
      ∀ id ∈ layers, g.isInput id = false := by
  have hinput : ∃ id, g.isInput id = true := h.oneInput.exists
  -- There is an input and nothing is stuck, so there is a schedule.
  rcases schedule_cases hg with ⟨hnil, _⟩ | ⟨_, hstuck, _⟩ | ⟨hne, _, order, hschedule⟩
  · exact absurd hnil ((exists_isInput_iff hg).mp hinput)
  · exact absurd hstuck (not_stuck hg h)
  have hfilter := filter_isInput_of_schedule hg hschedule
  cases order with
  | nil => exact absurd hfilter.symm hne
  | cons first rest =>
    have hids := mem_ids_of_mem_schedule hg hschedule first List.mem_cons_self
    have hfirst : g.isInput first = true := by
      -- The first node takes nothing, since it would have to come after it.
      by_contra hnot
      have hlen := h.length_sourcesOf hids (Bool.eq_false_iff.mpr hnot)
      obtain ⟨s, hs⟩ := List.length_eq_one_iff.mp hlen
      have hbefore : s ∈ [] :=
        ordered_of_schedule hg hschedule [] first rest rfl s (hs ▸ List.mem_cons_self)
      cases hbefore
    rw [List.filter_cons_of_pos hfirst] at hfilter
    -- Another input could only be the same one again.
    have hrest : ∀ id ∈ rest, g.isInput id = false := by
      intro id hid
      by_contra hnot
      have hidInput : g.isInput id = true := by simpa using hnot
      have heq : id = first := h.oneInput.unique hidInput hfirst
      exact (List.nodup_cons.mp (nodup_of_schedule hg hschedule)).1 (heq ▸ hid)
    have hnone : rest.filter g.isInput = [] :=
      List.filter_eq_nil_iff.mpr fun id hid => by simp [hrest id hid]
    rw [hnone] at hfilter
    exact ⟨first, rest, hfilter.symm, hschedule, hrest⟩

/-- What is scheduled last leads to an output. -/
theorem leads_to_output (hg : g.WellFormed) (h : g.Straight) {order : List NodeId}
    (hschedule : g.schedule.result = .ok order) {last : NodeId} (hlast : last ∈ order.getLast?) :
    ∃ output, g.isOutput output = true ∧ g.Leads last output := by
  have hmem : last ∈ order := List.mem_of_getLast? hlast
  obtain ⟨hreach, hnotOut⟩ := (mem_schedule_iff hg hschedule last).mp hmem
  obtain ⟨t, ht⟩ := List.length_eq_one_iff.mp (h.length_targetsOf hreach.mem_ids hnotOut)
  have hfeeds : g.Feeds last t := hg.mem_targetsOf.mp (ht ▸ List.mem_cons_self)
  refine ⟨t, ?_, leads_of_feeds hg h hfeeds⟩
  by_contra hlayer
  -- Otherwise the target would have been scheduled, and behind the last node.
  have htmem : t ∈ order :=
    (mem_schedule_iff hg hschedule t).mpr ⟨hreach.tail hfeeds, by simpa using hlayer⟩
  obtain ⟨before, after, rfl⟩ := List.append_of_mem htmem
  have hbefore : last ∈ before := ordered_of_schedule hg hschedule before t after rfl last hfeeds
  have hafter : last ∈ t :: after := by
    rw [List.getLast?_append_of_ne_nil _ (List.cons_ne_nil t after)] at hlast
    exact List.mem_of_getLast? hlast
  exact (List.nodup_append.mp (nodup_of_schedule hg hschedule)).2.2 last hbefore last hafter rfl

/-- The schedule of a straight graph, with the output behind it, is a path. -/
theorem schedule_isChain (hg : g.WellFormed) (h : g.Straight) :
    ∃ input layers output, g.inputs = [input] ∧ g.outputs = [output] ∧
      g.schedule.result = .ok (input :: layers) ∧
      (input :: layers ++ [output]).IsChain g.Leads := by
  obtain ⟨input, layers, hinputs, hschedule, hlayers⟩ := exists_schedule hg h
  have hids := mem_ids_of_mem_schedule hg hschedule
  have hchain : (input :: layers).IsChain g.Leads :=
    isChain_of_ordered hg h (ordered_of_schedule hg hschedule) (nodup_of_schedule hg hschedule)
      (fun id hid => hids id (List.mem_cons_of_mem _ hid)) hlayers
  obtain ⟨last, hlast⟩ : ∃ last, last ∈ (input :: layers).getLast? :=
    ⟨_, List.getLast?_eq_some_getLast (List.cons_ne_nil input layers)⟩
  obtain ⟨output, hout, hleads⟩ := leads_to_output hg h hschedule hlast
  -- The output behind the last node is the only one.
  have houtputs : g.outputs = [output] := by
    refine (List.perm_singleton.mp ?_)
    refine (List.perm_ext_iff_of_nodup hg.outputsNodup (List.nodup_singleton _)).mpr fun id => ?_
    rw [hg.memOutputs, List.mem_singleton]
    exact ⟨fun hid => h.oneOutput.unique hid hout, fun heq => heq ▸ hout⟩
  refine ⟨input, layers, output, hinputs, houtputs, hschedule, ?_⟩
  -- What is left is the link from the last node to the output.
  refine List.isChain_append.mpr ⟨hchain, .singleton output, fun y hy z hz => ?_⟩
  cases hz
  have hly : last = y := Option.some.inj (hlast.symm.trans hy)
  exact hly ▸ hleads

end Straight

/-- The last node of a path to an output leads to the output. -/
theorem exists_last_of_isChain {g : Graph} {first output : NodeId} {rest : List NodeId}
    (h : (first :: rest ++ [output]).IsChain g.Leads) :
    ∃ last ∈ (first :: rest).getLast?, g.Leads last output := by
  have hlast := List.getLast?_eq_some_getLast (List.cons_ne_nil first rest)
  exact ⟨_, hlast, (List.isChain_append.mp h).2.2 _ hlast output rfl⟩

/-! ## The test for a chain -/

section Test

variable {g : Graph} {order : List NodeId} {c : Chain}

/-- There is an only input if the list of inputs is a singleton. -/
private theorem onlyInput_eq_ok_iff (g : Graph) (input : NodeId) :
    g.onlyInput = .ok input ↔ g.inputs = [input] := by
  unfold onlyInput
  split
  · next h => simp [h]
  · next h => simp [h]
  · next h => simp [h]

/-- The same for outputs. -/
private theorem checkOnlyOutput_eq_ok_iff (g : Graph) :
    g.checkOnlyOutput = .ok () ↔ ∃ output, g.outputs = [output] := by
  unfold checkOnlyOutput
  split
  · next h => simp [h]
  · next h => simp [h]
  · next h => simp [h]

/-- Every node has just the edges that its role allows on a chain. -/
private theorem checkDegrees_eq_ok_iff (g : Graph) :
    g.checkDegrees = .ok () ↔ ∀ id n, g.get? id = some n →
      (n.sources.length, n.targets.length) = n.role.chainDegrees := by
  have hfault : ∀ n : Node, n.chainFault? = none ↔
      (n.sources.length, n.targets.length) = n.role.chainDegrees := by
    intro n
    simp [Node.chainFault?, Prod.ext_iff]
  have hentries : ∀ id n, (id, n) ∈ g.nodes.entries ↔ g.get? id = some n := fun id n =>
    (OrderedMap.get?_eq_some_iff g.nodes id n).symm
  unfold checkDegrees
  split
  · next error h =>
    obtain ⟨⟨id, n⟩, hmem, he⟩ := List.exists_of_findSome?_eq_some h
    simp only [reduceCtorEq, false_iff]
    -- The node that was found has other edges than its role allows.
    intro hall
    rw [(hfault n).mpr (hall id n ((hentries id n).mp hmem))] at he
    cases he
  · next h =>
    simp only [true_iff]
    intro id n hn
    have hnone := List.findSome?_eq_none_iff.mp h (id, n) ((hentries id n).mpr hn)
    exact (hfault n).mp (Option.map_eq_none_iff.mp hnone)

/-- Which chain is found, and when. -/
theorem chain_eq_ok_iff (g : Graph) (order : List NodeId) (c : Chain) :
    g.chain order = .ok c ↔ g.inputs = [c.input] ∧ (∃ output, g.outputs = [output]) ∧
      (∀ id n, g.get? id = some n →
        (n.sources.length, n.targets.length) = n.role.chainDegrees) ∧
      c.layers ≠ [] ∧ c.layers = order.filter (· ≠ c.input) := by
  rw [← checkOnlyOutput_eq_ok_iff, ← checkDegrees_eq_ok_iff]
  simp only [chain, Except.bind_eq_ok_iff, onlyInput_eq_ok_iff]
  constructor
  · intro ⟨input, hinputs, _, houtputs, _, hdegrees, hrest⟩
    -- A chain has a layer at least.
    split at hrest
    · cases hrest
    · next hne =>
      cases hrest
      exact ⟨hinputs, houtputs, hdegrees, fun hnil => hne (List.isEmpty_iff.mpr hnil), rfl⟩
  · intro ⟨hinputs, houtputs, hdegrees, hne, hlayers⟩
    refine ⟨c.input, hinputs, (), houtputs, (), hdegrees, ?_⟩
    rw [← hlayers, if_neg fun hempty => hne (List.isEmpty_iff.mp hempty)]
    rfl

/-- A graph that passes the test for a chain is straight. -/
theorem straight_of_chain (hg : g.WellFormed) (h : g.chain order = .ok c) : g.Straight := by
  obtain ⟨hinputs, ⟨output, houtputs⟩, hdegrees, _, _⟩ := (chain_eq_ok_iff g order c).mp h
  have hinput : ∀ id, g.isInput id = true ↔ id = c.input := fun id => by
    rw [← hg.memInputs, hinputs, List.mem_singleton]
  have houtput : ∀ id, g.isOutput id = true ↔ id = output := fun id => by
    rw [← hg.memOutputs, houtputs, List.mem_singleton]
  -- The expected numbers of edges, for a node of a known role.
  have hrole : ∀ id role, g.hasRole role id = true →
      ((g.sourcesOf id).length, (g.targetsOf id).length) = role.chainDegrees := by
    intro id role hid
    obtain ⟨n, hn⟩ := (g.mem_ids_iff id).mp (mem_ids_of_hasRole hid)
    have hn' : n.role = role := by simpa [hasRole, hn] using hid
    rw [sourcesOf_of_get? hn, targetsOf, hn, ← hn']
    exact hdegrees id n hn
  refine ⟨⟨c.input, (hinput _).mpr rfl, fun id hid => (hinput id).mp hid⟩,
    ⟨output, (houtput _).mpr rfl, fun id hid => (houtput id).mp hid⟩, ?_, ?_, ?_⟩
  · intro id hid
    simpa [Role.chainDegrees] using hrole id .input hid
  · intro id hid
    simpa [Role.chainDegrees] using hrole id .output hid
  · -- What is neither the input nor the output is a layer.
    intro id hid hnotInput hnotOutput
    have hlayer : g.hasRole .layer id = true := by
      obtain ⟨n, hn⟩ := (g.mem_ids_iff id).mp hid
      simp only [isInput, hasRole, isOutput, Node.isOutput, hn, Option.any_some] at *
      cases hn' : n.role <;> simp_all
    simpa [Role.chainDegrees] using hrole id .layer hlayer

/-- The layers of a chain are what was scheduled behind the input. -/
theorem isChain_of_chain (hg : g.WellFormed) (hschedule : g.schedule.result = .ok order)
    (h : g.chain order = .ok c) :
    ∃ output, g.outputs = [output] ∧ order = c.input :: c.layers ∧ c.layers ≠ [] ∧
      (c.input :: c.layers ++ [output]).IsChain g.Leads := by
  obtain ⟨hinputs, _, _, hne, hlayers⟩ := (chain_eq_ok_iff g order c).mp h
  obtain ⟨input, layers, output, hinputs', houtputs, hschedule', hchain⟩ :=
    (straight_of_chain hg h).schedule_isChain hg
  have hinput : input = c.input := by
    rw [hinputs'] at hinputs
    exact List.singleton_inj.mp hinputs
  have horder : order = input :: layers := Except.ok.inj (hschedule.symm.trans hschedule')
  subst hinput
  have hnodup := nodup_of_schedule hg hschedule
  -- The input is scheduled once and first, so leaving it out leaves the rest.
  have hfilter : order.filter (· ≠ c.input) = layers := by
    rw [horder] at hnodup ⊢
    have hnot := (List.nodup_cons.mp hnodup).1
    rw [List.filter_cons_of_neg (by simp)]
    refine List.filter_eq_self.mpr fun id hid => ?_
    exact decide_eq_true fun heq => hnot (heq ▸ hid)
  rw [hfilter] at hlayers
  rw [← hlayers] at hchain horder
  exact ⟨output, houtputs, horder, hne, hchain⟩

end Test

/-! ## The functional program of a chain -/

section Program

variable {g : Graph} {order : List NodeId} {c : Chain}

/-- The statements that are generated for a schedule. -/
theorem mapM_statement (hg : g.WellFormed) (hschedule : g.schedule.result = .ok order)
    (target : Target) : order.mapM (g.statement target) =
      .ok ((order.map g.bindingOf).map target.bindingText) := by
  have hstatement : ∀ id ∈ order, ∀ text, g.statement target id = .ok text ↔
      True ∧ text = target.bindingText (g.bindingOf id) := by
    intro id hid text
    obtain ⟨hreach, hout⟩ := (mem_schedule_iff hg hschedule id).mp hid
    rw [statement_eq_unlessFault hg, Except.unlessFault_eq_ok_iff, hout,
      undeclared?_of_mem hreach.mem_ids]
    simp
  rw [(Except.mapM_eq_ok_iff hstatement).mpr ⟨fun _ _ => trivial, rfl⟩, List.map_map]
  rfl

/-- Along a path every statement applies its layer to what the statement before it binds. -/
theorem isChain_bindings (h : order.IsChain g.Leads) :
    (order.map g.bindingOf).IsChain fun b b' => b'.sources = [b.name] := by
  rw [List.isChain_map]
  refine h.imp fun s t hst => ?_
  show (g.sourcesOf t).map g.nameOf = [g.nameOf s]
  rw [hst.sources]
  rfl

/-- Nothing is wrong with the output of a path. -/
theorem outputsFault?_of_leads {last output : NodeId} (hlast : last ∈ order.getLast?)
    (houtputs : g.outputs = [output]) (hleads : g.Leads last output) :
    g.outputsFault? order = none := by
  have hmem : last ∈ order := List.mem_of_getLast? hlast
  rw [outputsFault?_eq_none_iff, houtputs]
  simp [hleads.sources, hmem]

/-- The model of a path to the output returns what the last statement binds. -/
theorem modelOf_outputs_of_leads {last output : NodeId} (houtputs : g.outputs = [output])
    (hleads : g.Leads last output) (order : List NodeId) :
    (g.modelOf order).outputs = [g.nameOf last] := by
  rw [modelOf, houtputs]
  simp [hleads.sources]

end Program

/-- A straight graph has a schedule, and the schedule with the output behind it is a path.  So the
    layers of a chain are the path from the input to the output.  The functional program is the text
    of a model in which every layer is applied to the one before it and the last one is returned. -/
theorem chain_isPath {g : Graph} (hg : g.Built) :
    (g.Straight → ∃ input layers output, g.isInput input = true ∧ g.isOutput output = true ∧
      g.schedule.result = .ok (input :: layers) ∧
      (input :: layers ++ [output]).IsChain g.Leads) ∧
    ∀ order c, g.schedule.result = .ok order → g.chain order = .ok c →
      ∃ output, g.isInput c.input = true ∧ g.isOutput output = true ∧
        order = c.input :: c.layers ∧ c.layers ≠ [] ∧
        (c.input :: c.layers ++ [output]).IsChain g.Leads ∧
        ∀ o : Options, o.style = .functional → ∃ m : Model,
          (g.compile o).result = .ok (o.target.programText o m) ∧
          m.bindings = order.map g.bindingOf ∧
          order.mapM g.bindingName = .ok (m.bindings.map Binding.name) ∧
          order.mapM (g.statement o.target) = .ok (m.bindings.map o.target.bindingText) ∧
          m.bindings.head?.map (fun b => [b.name]) = some m.inputs ∧
          m.bindings.IsChain (fun b b' => b'.sources = [b.name]) ∧
          m.bindings.getLast?.map (fun b => [b.name]) = some m.outputs := by
  have hwf := hg.wellFormed
  have hinput : ∀ {id}, g.inputs = [id] → g.isInput id = true := fun h =>
    (hwf.memInputs _).mp (h ▸ List.mem_cons_self)
  have houtput : ∀ {id}, g.outputs = [id] → g.isOutput id = true := fun h =>
    (hwf.memOutputs _).mp (h ▸ List.mem_cons_self)
  constructor
  · intro hstraight
    obtain ⟨input, layers, output, hinputs, houtputs, hschedule, hchain⟩ :=
      hstraight.schedule_isChain hwf
    exact ⟨input, layers, output, hinput hinputs, houtput houtputs, hschedule, hchain⟩
  · intro order c hschedule hc
    have hinputs : g.inputs = [c.input] := ((chain_eq_ok_iff g order c).mp hc).1
    obtain ⟨output, houtputs, horder, hne, hchain⟩ := isChain_of_chain hwf hschedule hc
    refine ⟨output, hinput hinputs, houtput houtputs, horder, hne, hchain, fun o hstyle => ?_⟩
    -- The chain up to the output is what the statements follow.
    have hpath := (List.isChain_append.mp hchain).1
    obtain ⟨last, hlast, hleads⟩ := exists_last_of_isChain hchain
    rw [← horder] at hpath hlast
    have hbindings := modelOf_bindings_of_schedule hwf hschedule
    refine ⟨g.modelOf order, ?_, hbindings, ?_⟩
    · rw [compile_functional_of_schedule hwf hschedule hstyle,
        outputsFault?_of_leads hlast houtputs hleads]
      rfl
    -- The statements, and how each takes the name that the one before it binds.
    rw [hbindings, modelOf_outputs_of_leads houtputs hleads, map_name_bindingOf]
    refine ⟨mapM_bindingName (mem_ids_of_mem_schedule hwf hschedule),
      mapM_statement hwf hschedule o.target, ?_, isChain_bindings hpath, ?_⟩
    · rw [horder, modelOf, hinputs]
      rfl
    · rw [List.getLast?_map, hlast]
      rfl

/-- Two layers between an input and an output, declared backwards, and two more that only take the
    result of each other. -/
def line : Graph where
  nodes := ⟨[
    (⟨"z"⟩, ⟨"Output", ∅, [⟨"y"⟩], []⟩),
    (⟨"y"⟩, ⟨"Dense", ∅, [⟨"x"⟩], [⟨"z"⟩]⟩),
    (⟨"u"⟩, ⟨"Dense", ∅, [⟨"v"⟩], [⟨"v"⟩]⟩),
    (⟨"x"⟩, ⟨"Flatten", ∅, [⟨"a"⟩], [⟨"y"⟩]⟩),
    (⟨"v"⟩, ⟨"Dense", ∅, [⟨"u"⟩], [⟨"u"⟩]⟩),
    (⟨"a"⟩, ⟨"Input", ∅, [], [⟨"x"⟩]⟩)], by decide⟩
  inputs := [⟨"a"⟩]
  outputs := [⟨"z"⟩]

theorem line_built : line.Built := .descriptions [
  ⟨⟨"z"⟩, "Output", ∅, [⟨"y"⟩], none⟩,
  ⟨⟨"y"⟩, "Dense", ∅, [⟨"x"⟩], none⟩,
  ⟨⟨"u"⟩, "Dense", ∅, [⟨"v"⟩], none⟩,
  ⟨⟨"x"⟩, "Flatten", ∅, [⟨"a"⟩], none⟩,
  ⟨⟨"v"⟩, "Dense", ∅, [⟨"u"⟩], none⟩,
  ⟨⟨"a"⟩, "Input", ∅, [], none⟩] rfl

theorem line_schedule : line.schedule.result = .ok [⟨"a"⟩, ⟨"x"⟩, ⟨"y"⟩] := by cbv

theorem line_chain : line.chain [⟨"a"⟩, ⟨"x"⟩, ⟨"y"⟩] = .ok ⟨⟨"a"⟩, [⟨"x"⟩, ⟨"y"⟩]⟩ := rfl

/-- The chain leaves out the layers that only take the result of each other. -/
theorem chain_isPath_line :
    line.Built ∧ line.Straight ∧
      (∃ input layers output, line.schedule.result = .ok (input :: layers) ∧
        (input :: layers ++ [output]).IsChain line.Leads) ∧
      List.IsChain line.Leads [⟨"a"⟩, ⟨"x"⟩, ⟨"y"⟩, ⟨"z"⟩] ∧
      ∃ m : Model, (line.compile).result = .ok (Target.keras.programText {} m) ∧
        Target.keras.programText {} m = Text.ofLines [
          "import keras",
          "",
          "def build_model():",
          "    input_a = keras.layers.Input()",
          "    layer_x = keras.layers.Flatten()(input_a)",
          "    layer_y = keras.layers.Dense()(layer_x)",
          "    model = keras.models.Model(inputs=input_a, outputs=layer_y)",
          "    return model"] ∧
        m.bindings.IsChain fun b b' => b'.sources = [b.name] := by
  have hstraight : line.Straight := straight_of_chain line_built.wellFormed line_chain
  obtain ⟨input, layers, output, _, _, hschedule, hchain⟩ := (chain_isPath line_built).1 hstraight
  obtain ⟨output', _, hout, _, _, hchain', hprogram⟩ :=
    (chain_isPath line_built).2 _ _ line_schedule line_chain
  obtain ⟨m, hcompile, _, _, _, _, hbindings, _⟩ := hprogram {} rfl
  have hgenerate : line.compile.result =
      (line.generate {} [⟨"a"⟩, ⟨"x"⟩, ⟨"y"⟩]).result := by
    rw [compile_result, line_schedule, Except.ok_bind]
  have htext := Except.ok.inj (hcompile.symm.trans hgenerate)
  have houtput : output' = ⟨"z"⟩ := hstraight.oneOutput.unique hout rfl
  subst houtput
  exact ⟨line_built, hstraight, ⟨input, layers, output, hschedule, hchain⟩, hchain', m, hcompile,
    htext.trans (by decide +kernel), hbindings⟩

end LayerGraph.Graph
