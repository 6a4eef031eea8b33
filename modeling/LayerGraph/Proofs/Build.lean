import LayerGraph.Proofs.Library
import LayerGraph.Proofs.Mirror
import LayerGraph.Proofs.WellFormed
import LayerGraph.Request.Descriptions

/-! # Built graphs are well-formed

Building checks the declarations and then derives the rest of the graph from them.  The checks and
the derived parts each get a lemma that says what they mean; together they give that the result is
well-formed and lists its inputs and outputs in the order that was asked for.

## Key results

- `Declarations.fault?_eq_none_iff`: the rules that a description has to follow
- `Declarations.count_consumers`: consumers have the multiplicities of the source lists
- `Graph.endpoints_eq_ok_iff`: when the inputs or outputs of a graph are accepted, and their order
- `Graph.build_eq_ok_iff`: when building succeeds, and with which graph -/

namespace LayerGraph

/-- The description of a node that counts: the last one. -/
def lastDescription? (ds : List Description) (id : NodeId) : Option Description :=
  ds.reverse.find? fun d => d.id = id

namespace Declarations

/-- Of several descriptions of a node the last one counts. -/
theorem get?_ofList (ds : List Description) (id : NodeId) :
    (ofList ds).get? id = lastDescription? ds id := by
  -- What was declared before `ds` stands behind all of `ds`.
  have go : ∀ (ds : List Description) (decls : Declarations),
      ((ds.map fun d => (d.id, d)).foldl (fun m e => m.insert e.1 e.2) decls).get? id =
        (lastDescription? ds id).or (decls.get? id) := by
    intro ds
    induction ds with
    | nil => intro decls; rfl
    | cons d ds ih =>
      intro decls
      rw [List.map_cons, List.foldl_cons, ih, OrderedMap.get?_insert, lastDescription?,
        lastDescription?, List.reverse_cons, List.find?_append, Option.or_assoc]
      -- `d` counts only if nothing in `ds` has its id.
      by_cases hd : d.id = id
      · simp [hd]
      · simp [hd, Ne.symm hd]
  rw [ofList, OrderedMap.ofList, go ds]
  exact Option.or_none

/-- Nodes are declared in the order of their first descriptions. -/
theorem keys_ofList (ds : List Description) :
    (ofList ds).keys = (ds.map Description.id).eraseDups := by
  rw [ofList, OrderedMap.keys_ofList, List.map_map]
  rfl

/-! ## Checking declarations -/

/-- What it takes for a description to have no fault. -/
theorem fault?_eq_none_iff (decls : Declarations) (d : Description) :
    decls.fault? d = none ↔
      (∀ e ∈ d.sources ++ d.targets.getD [], e ∈ decls.keys) ∧
      (d.role = .input → d.sources = []) ∧
      (d.role = .output → d.targets.getD [] = []) ∧
      ∀ s ∈ d.sources, decls.isOutput s = false := by
  have hkeys : ∀ e, decls.contains e = true ↔ e ∈ decls.keys := fun e => by
    rw [OrderedMap.contains, OrderedMap.mem_keys_iff]
  unfold fault?
  -- The edges are checked first; only then do the rules of the roles matter.
  cases hedge : (d.sources ++ d.targets.getD []).find? fun edge => !decls.contains edge with
  | some edge =>
    have hbad : edge ∉ decls.keys := by
      rw [← hkeys]
      simpa using List.find?_some hedge
    have hmem := List.mem_of_find?_eq_some hedge
    -- The edge that was found contradicts the first condition.
    simp only [reduceCtorEq, false_iff]
    exact fun h => hbad (h.1 edge hmem)
  | none =>
    have hall : ∀ e ∈ d.sources ++ d.targets.getD [], e ∈ decls.keys := by
      intro e he
      rw [← hkeys]
      simpa using List.find?_eq_none.mp hedge e he
    rw [and_iff_right hall]
    dsimp only
    -- The first condition holds, and the others are those of the three tests.
    split
    · next hi => simp [hi]
    · next hi =>
      split
      · next ho => simp [ho]
      · next ho =>
        rw [not_and, Decidable.not_not] at hi ho
        simp only [Option.map_eq_none_iff, List.find?_eq_none, Bool.not_eq_true]
        exact ⟨fun h => ⟨hi, ho, h⟩, fun h => h.2.2⟩

/-- The declarations pass the check if none of them has a fault. -/
theorem check_eq_ok_iff (decls : Declarations) :
    decls.check = .ok () ↔ ∀ id d, decls.get? id = some d → decls.fault? d = none := by
  unfold check
  split
  · next error h =>
    obtain ⟨e, he, hfault⟩ := List.exists_of_findSome?_eq_some h
    simp only [reduceCtorEq, false_iff]
    -- Every declaration that is found has a fault.
    intro hall
    rw [hall e.1 e.2 ((decls.get?_eq_some_iff _ _).mpr he)] at hfault
    cases hfault
  · next h =>
    rw [List.findSome?_eq_none_iff] at h
    simp only [true_iff]
    intro id d hd
    exact Option.map_eq_none_iff.mp (h (id, d) ((decls.get?_eq_some_iff _ _).mp hd))

/-- The sources that a node is declared with. -/
def sourcesOf (decls : Declarations) (id : NodeId) : List NodeId :=
  ((decls.get? id).map Description.sources).getD []

/-- In checked declarations the sources are declared, and none is an output. -/
theorem sourcesOf_of_check {decls : Declarations} (h : decls.check = .ok ()) (id : NodeId) :
    ∀ s ∈ decls.sourcesOf id, s ∈ decls.keys ∧ decls.isOutput s = false := by
  intro s hs
  rw [sourcesOf] at hs
  cases hd : decls.get? id with
  | none => rw [hd] at hs; cases hs
  | some d =>
    have hs' : s ∈ d.sources := by simpa [hd] using hs
    have hfault := (decls.fault?_eq_none_iff d).mp (decls.check_eq_ok_iff.mp h id d hd)
    exact ⟨hfault.1 s (List.mem_append_left _ hs'), hfault.2.2.2 s hs'⟩

/-! ## Consumers and targets -/

/-- A node takes the result of another as often as it stands among the consumers of the other. -/
theorem count_consumers (decls : Declarations) (s t : NodeId) :
    (decls.consumers s).count t = (decls.sourcesOf t).count s := by
  -- One declaration contributes its id as often as `s` stands among its sources.
  have once (e : NodeId × Description) :
      ((e.2.sources.filter (· = s)).map fun _ => e.1).count t =
        if e.1 = t then e.2.sources.count s else 0 := by
    have hfilter : e.2.sources.filter (· = s) = e.2.sources.filter (· == s) := rfl
    rw [List.map_const', List.count_replicate, hfilter, ← List.count_eq_length_filter]
    simp only [beq_iff_eq]
  -- The induction is over any declarations with distinct ids.
  have go : ∀ entries : List (NodeId × Description), (entries.map Prod.fst).Nodup →
      (entries.flatMap fun e => (e.2.sources.filter (· = s)).map fun _ => e.1).count t =
        ((((entries.find? fun e => e.1 = t).map Prod.snd).map
          Description.sources).getD []).count s := by
    intro entries
    induction entries with
    | nil => intro _; simp
    | cons e rest ih =>
      intro hnodup
      rw [List.map_cons, List.nodup_cons] at hnodup
      rw [List.flatMap_cons, List.count_append, once, ih hnodup.2]
      by_cases het : e.1 = t
      · -- The ids are distinct, so no later declaration contributes.
        have hnone : rest.find? (fun e => e.1 = t) = none := by
          rw [List.find?_eq_none]
          intro e' he'
          have hne : e'.1 ≠ t := fun h => hnodup.1 (List.mem_map.mpr ⟨e', he', h.trans het.symm⟩)
          simpa using hne
        simp [het, hnone]
      · simp [het]
  exact go decls.entries decls.distinct

/-- The targets of a node are its consumers, in whatever order. -/
theorem targets_perm (decls : Declarations) (id : NodeId) (d : Description) :
    (decls.targets id d).Perm (decls.consumers id) := by
  unfold targets
  cases d.targets with
  | none => exact .refl _
  | some declared =>
    dsimp only
    -- Declared targets count only if they are the consumers in another order.
    split
    · next hperm => exact hperm
    · exact .refl _

end Declarations

namespace Graph

/-! ## The edges of a built graph -/

section Nodes

variable {decls : Declarations} {g : Graph}

/-- The nodes are those of the declarations. -/
theorem ids_of_nodes (h : g.nodes = decls.nodes) : g.ids = decls.keys := by
  rw [ids, h, Declarations.nodes, OrderedMap.keys_mapValues]

/-- A node is made of its declaration. -/
theorem get?_of_nodes (h : g.nodes = decls.nodes) (id : NodeId) :
    g.get? id = (decls.get? id).map (decls.node id) := by
  rw [get?, h, Declarations.nodes, OrderedMap.get?_mapValues]

/-- Nodes have the declared sources. -/
private theorem sourcesOf_of_nodes (h : g.nodes = decls.nodes) (id : NodeId) :
    g.sourcesOf id = decls.sourcesOf id := by
  rw [sourcesOf, Declarations.sourcesOf, get?_of_nodes h, Option.map_map]
  rfl

/-- Nodes have the declared roles. -/
private theorem isOutput_of_nodes (h : g.nodes = decls.nodes) (id : NodeId) :
    g.isOutput id = decls.isOutput id := by
  rw [isOutput, Declarations.isOutput, get?_of_nodes h, Option.any_map]
  rfl

/-- The sources of checked nodes are declared, and none is an output. -/
theorem sources_of_check (h : g.nodes = decls.nodes) (hcheck : decls.check = .ok ())
    (id : NodeId) : ∀ s ∈ g.sourcesOf id, s ∈ g.ids ∧ g.isOutput s = false := by
  rw [sourcesOf_of_nodes h, ids_of_nodes h]
  intro s hs
  rw [isOutput_of_nodes h]
  exact Declarations.sourcesOf_of_check hcheck id s hs

/-- In checked declarations inputs take nothing. -/
private theorem sourcesOf_eq_nil_of_check (h : g.nodes = decls.nodes)
    (hcheck : decls.check = .ok ()) {id : NodeId} (hid : g.isInput id = true) :
    g.sourcesOf id = [] := by
  rw [isInput, hasRole, get?_of_nodes h] at hid
  rw [sourcesOf_of_nodes h, Declarations.sourcesOf]
  cases hd : decls.get? id with
  | none => rfl
  | some d =>
    have hrole : (decls.node id d).role = .input := by simpa [hd] using hid
    have hfault := (decls.fault?_eq_none_iff d).mp (decls.check_eq_ok_iff.mp hcheck id d hd)
    exact hfault.2.1 hrole

/-- Outputs lose their parameters. -/
private theorem parameters_of_nodes (h : g.nodes = decls.nodes) {id : NodeId} {n : Node}
    (hn : g.get? id = some n) (hout : n.isOutput = true) : n.parameters = ∅ := by
  rw [get?_of_nodes h] at hn
  obtain ⟨d, _, rfl⟩ := Option.map_eq_some_iff.mp hn
  have hrole : (decls.node id d).role = .output := by simpa [Node.isOutput] using hout
  exact if_pos hrole

/-- The target lists hold the edges of the source lists, and each equally often. -/
theorem mirrored_of_check (h : g.nodes = decls.nodes) (hcheck : decls.check = .ok ())
    (s t : NodeId) : (g.targetsOf s).count t = (g.sourcesOf t).count s := by
  rw [sourcesOf_of_nodes h]
  cases hs : decls.get? s with
  | none =>
    -- An undeclared node has no targets, and nothing takes its result.
    have hundeclared : s ∉ decls.keys := by
      rw [OrderedMap.mem_keys_iff, hs]
      simp
    have htargets : g.targetsOf s = [] := by simp [targetsOf, get?_of_nodes h, hs]
    rw [htargets, List.count_nil, eq_comm, List.count_eq_zero]
    exact fun hmem => hundeclared (Declarations.sourcesOf_of_check hcheck t s hmem).1
  | some d =>
    -- Its targets are kept or replaced, and are the consumers either way.
    have htargets : g.targetsOf s = decls.targets s d := by
      simp [targetsOf, get?_of_nodes h, hs, Declarations.node, Node.withTargets]
    rw [htargets, (decls.targets_perm s d).count_eq, decls.count_consumers]

end Nodes

/-! ## Inputs and outputs -/

/-- The nodes of a role: first those that were listed, each at its first place in the list, and then
    the others in the order of declaration. -/
def listedFirst (g : Graph) (role : Role) (listed : Option (List NodeId)) : List NodeId :=
  (listed.getD []).eraseDups ++ g.ids.filter fun id => g.hasRole role id ∧ id ∉ listed.getD []

/-- Nothing is wrong with a listed endpoint that has the role. -/
theorem endpointFault?_eq_none_iff (g : Graph) (role : Role) (id : NodeId) :
    endpointFault? g.nodes role id = none ↔ g.hasRole role id = true := by
  rw [endpointFault?, hasRole, get?]
  cases g.nodes.get? id with
  | none => simp
  | some n => simp

/-- The ids of the entries of a role are the declared ids of the role. -/
theorem map_fst_filter_entries (g : Graph) (role : Role) (first : List NodeId) :
    (g.nodes.entries.filter fun e => e.2.role = role ∧ e.1 ∉ first).map Prod.fst =
      g.ids.filter fun id => g.hasRole role id ∧ id ∉ first := by
  rw [ids, OrderedMap.keys, List.filter_map]
  congr 1
  refine List.filter_congr fun e he => ?_
  have hget : g.get? e.1 = some e.2 := (g.nodes.get?_eq_some_iff _ _).mpr he
  simp [hasRole, hget]

/-- If all listed endpoints have the role, they come first and the others follow. -/
theorem endpoints_eq_ok_iff (g : Graph) (role : Role) (listed : Option (List NodeId))
    (ids : List NodeId) :
    endpoints g.nodes role listed = .ok ids ↔
      (∀ id ∈ listed.getD [], g.hasRole role id = true) ∧ ids = g.listedFirst role listed := by
  simp only [endpoints]
  split
  · next error h =>
    obtain ⟨id, hid, hfault⟩ := List.exists_of_findSome?_eq_some h
    simp only [reduceCtorEq, false_iff]
    -- The listed id that was found does not have the role.
    intro ⟨hall, _⟩
    rw [(g.endpointFault?_eq_none_iff role id).mpr (hall id hid)] at hfault
    cases hfault
  · next h =>
    rw [List.findSome?_eq_none_iff] at h
    have hall : ∀ id ∈ listed.getD [], g.hasRole role id = true := fun id hid =>
      (g.endpointFault?_eq_none_iff role id).mp (Option.map_eq_none_iff.mp (h id hid))
    -- What is listed comes first, and then the nodes of the role that are not listed.
    rw [map_fst_filter_entries, and_iff_right hall, Except.ok.injEq, listedFirst, eq_comm]
    simp only [List.mem_eraseDups]

/-- No endpoint is listed twice. -/
private theorem nodup_listedFirst {g : Graph} (hids : g.ids.Nodup) (role : Role)
    (listed : Option (List NodeId)) : (g.listedFirst role listed).Nodup := by
  rw [listedFirst, List.nodup_append]
  refine ⟨List.nodup_eraseDups _, hids.filter _, ?_⟩
  intro a ha b hb hab
  rw [List.mem_eraseDups] at ha
  simp only [List.mem_filter, decide_eq_true_eq] at hb
  exact hb.2.2 (hab ▸ ha)

/-- If what was listed has the role, everything of that role is listed in the end. -/
theorem mem_listedFirst {g : Graph} {role : Role} {listed : Option (List NodeId)}
    (h : ∀ id ∈ listed.getD [], g.hasRole role id = true) (id : NodeId) :
    id ∈ g.listedFirst role listed ↔ g.hasRole role id = true := by
  rw [listedFirst, List.mem_append, List.mem_eraseDups, List.mem_filter, decide_eq_true_eq]
  constructor
  · intro hmem
    rcases hmem with hid | ⟨_, hrole, _⟩
    · exact h id hid
    · exact hrole
  · intro hrole
    by_cases hid : id ∈ listed.getD []
    · exact .inl hid
    · exact .inr ⟨mem_ids_of_hasRole hrole, hrole, hid⟩

/-! ## Building -/

/-- Building a graph is checking the declarations and listing the endpoints. -/
theorem build_result (ds : List Description) (inputs outputs : Option (List NodeId)) :
    (build ds inputs outputs).result =
      (Declarations.ofList ds).check >>= fun _ =>
      endpoints (Declarations.ofList ds).nodes .input inputs >>= fun ins =>
      endpoints (Declarations.ofList ds).nodes .output outputs >>= fun outs =>
      .ok ⟨(Declarations.ofList ds).nodes, ins, outs⟩ := by
  simp only [build, Traced.result_bind, Traced.result_report, Declarations.mirrorTargets_eq]
  rfl

/-- Which graph is built, and when. -/
theorem build_eq_ok_iff (ds : List Description) (inputs outputs : Option (List NodeId))
    (g : Graph) :
    (build ds inputs outputs).result = .ok g ↔
      (Declarations.ofList ds).check = .ok () ∧ g.nodes = (Declarations.ofList ds).nodes ∧
      endpoints g.nodes .input inputs = .ok g.inputs ∧
      endpoints g.nodes .output outputs = .ok g.outputs := by
  rw [build_result]
  simp only [Except.bind_eq_ok_iff]
  constructor
  · intro ⟨_, hcheck, ins, hins, outs, houts, hg⟩
    cases hg
    exact ⟨hcheck, rfl, hins, houts⟩
  · intro ⟨hcheck, hnodes, hins, houts⟩
    -- The nodes, the inputs and the outputs are all there is of a graph.
    rw [hnodes] at hins houts
    exact ⟨(), hcheck, g.inputs, hins, g.outputs, houts, by rw [← hnodes]⟩

/-- What is reported while a graph is built. -/
theorem events_of_build {ds : List Description} {inputs outputs : Option (List NodeId)} {g : Graph}
    (h : (build ds inputs outputs).result = .ok g) :
    (build ds inputs outputs).events =
      (Declarations.repeated [] ds).map .redeclared ++
        ((Declarations.ofList ds).ignoredParameters ++
          ((Declarations.ofList ds).replacedTargets ++
            [.graphBuilt g.size g.inputs.length g.outputs.length])) := by
  obtain ⟨hcheck, hnodes, hins, houts⟩ := (build_eq_ok_iff ds inputs outputs g).mp h
  rw [hnodes] at hins houts
  have hsize : g.size = (Declarations.ofList ds).nodes.size := by rw [size, hnodes]
  -- No stage fails, so each leaves its events.
  unfold build
  rw [Traced.events_bind_of_ok rfl, Traced.events_bind_of_ok hcheck, Traced.events_bind_of_ok rfl,
    Declarations.mirrorTargets_eq, Traced.events_bind_of_ok rfl, Traced.events_bind_of_ok hins,
    Traced.events_bind_of_ok houts, hsize]
  rfl

/-- Every graph that is built is well-formed. -/
theorem wellFormed_of_build {ds : List Description} {inputs outputs : Option (List NodeId)}
    {g : Graph} (h : (build ds inputs outputs).result = .ok g) : g.WellFormed := by
  obtain ⟨hcheck, hnodes, hins, houts⟩ := (build_eq_ok_iff ds inputs outputs g).mp h
  obtain ⟨hlistedIns, hinputs⟩ := (g.endpoints_eq_ok_iff .input inputs g.inputs).mp hins
  obtain ⟨hlistedOuts, houtputs⟩ := (g.endpoints_eq_ok_iff .output outputs g.outputs).mp houts
  have hsources := sources_of_check hnodes hcheck
  have hmirrored := mirrored_of_check hnodes hcheck
  -- Targets and sources mirror each other, so a target takes the result.
  have hfeeds : ∀ s t, t ∈ g.targetsOf s → s ∈ g.sourcesOf t := by
    intro s t ht
    rw [← List.count_pos_iff, hmirrored] at ht
    exact List.count_pos_iff.mp ht
  have hids : g.ids.Nodup := g.nodes.distinct
  refine
    { idsNodup := hids, mirrored := hmirrored
      sourcesDeclared := fun id s hs => (hsources id s hs).1
      targetsDeclared := fun s t ht => mem_ids_of_mem_sourcesOf (hfeeds s t ht)
      inputSources := fun id hid => sourcesOf_eq_nil_of_check hnodes hcheck hid
      outputTargets := ?_
      outputParameters := fun id n hn hout => parameters_of_nodes hnodes hn hout
      outputNoSource := fun id s hs => (hsources id s hs).2
      inputsNodup := hinputs ▸ nodup_listedFirst hids .input inputs
      memInputs := fun id => hinputs ▸ mem_listedFirst hlistedIns id
      outputsNodup := houtputs ▸ nodup_listedFirst hids .output outputs
      memOutputs := fun id => houtputs ▸ mem_listedFirst hlistedOuts id }
  -- A target of an output would have the output among its sources.
  intro id hid
  rw [List.eq_nil_iff_forall_not_mem]
  intro t ht
  rw [(hsources t id (hfeeds id t ht)).2] at hid
  cases hid

/-- The graph has just the described nodes, in the order of their first descriptions and with the
    kinds and sources that count, it is well-formed, and its inputs and outputs are in the order
    that was asked for. -/
structure Normalizes (ds : List Description) (inputs outputs : Option (List NodeId))
    (g : Graph) : Prop where
  declared : g.ids = (ds.map Description.id).eraseDups
  described : ∀ id, (g.get? id).map (fun n => (n.kind, n.sources)) =
    (lastDescription? ds id).map fun d => (d.kind, d.sources)
  wellFormed : g.WellFormed
  inputsListed : g.inputs = g.listedFirst .input inputs
  outputsListed : g.outputs = g.listedFirst .output outputs

/-- The graph that is built of some descriptions is what they ask for. -/
theorem normalizes_of_build {ds : List Description} {inputs outputs : Option (List NodeId)}
    {g : Graph} (h : (build ds inputs outputs).result = .ok g) :
    g.Normalizes ds inputs outputs := by
  obtain ⟨_, hnodes, hins, houts⟩ := (build_eq_ok_iff ds inputs outputs g).mp h
  refine ⟨?_, fun id => ?_, wellFormed_of_build h, ?_, ?_⟩
  · rw [ids_of_nodes hnodes, Declarations.keys_ofList]
  · rw [get?_of_nodes hnodes, Declarations.get?_ofList, Option.map_map]
    rfl
  · exact ((g.endpoints_eq_ok_iff .input inputs g.inputs).mp hins).2
  · exact ((g.endpoints_eq_ok_iff .output outputs g.outputs).mp houts).2

/-- The graph of a request is built of its descriptions. -/
theorem ofRequest_eq_ok_iff (r : Request) (g : Graph) :
    (ofRequest r).result = .ok g ↔
      ∃ ds, r.descriptions.result = .ok ds ∧ (build ds r.inputs r.outputs).result = .ok g := by
  rw [ofRequest, Traced.result_bind, Except.bind_eq_ok_iff]

/-- A graph that came from descriptions of its nodes or from a request. -/
inductive Built (g : Graph) : Prop
  | descriptions (ds : List Description) (h : (ofDescriptions ds).result = .ok g)
  | request (r : Request) (h : (ofRequest r).result = .ok g)

/-- Whatever it is built of, a graph is well-formed. -/
theorem Built.wellFormed {g : Graph} (h : g.Built) : g.WellFormed := by
  cases h with
  | descriptions ds h => exact wellFormed_of_build h
  | request r h =>
    obtain ⟨ds, _, h⟩ := (ofRequest_eq_ok_iff r g).mp h
    exact wellFormed_of_build h

/-- However a graph is built, it has the described nodes and is well-formed, and its inputs and
    outputs are in the order that was asked for. -/
theorem build_sound :
    (∀ ds inputs outputs g, (build ds inputs outputs).result = .ok g →
      g.Normalizes ds inputs outputs) ∧
    ∀ r g, (ofRequest r).result = .ok g →
      ∃ ds, r.descriptions.result = .ok ds ∧ g.Normalizes ds r.inputs r.outputs := by
  refine ⟨fun ds inputs outputs g h => normalizes_of_build h, fun r g h => ?_⟩
  obtain ⟨ds, hds, h⟩ := (ofRequest_eq_ok_iff r g).mp h
  exact ⟨ds, hds, normalizes_of_build h⟩

/-- A layer that is declared twice and takes the input twice and its own result. -/
def loopDescriptions : List Description := [
  ⟨⟨"x"⟩, "Dense", ∅, [], none⟩,
  ⟨⟨"a"⟩, "Input", ∅, [], some [⟨"y"⟩]⟩,
  ⟨⟨"x"⟩, "Add", ∅, [⟨"a"⟩, ⟨"x"⟩, ⟨"a"⟩], none⟩,
  ⟨⟨"y"⟩, "Output", ∅, [⟨"x"⟩], some []⟩]

/-- The same network with its layer in a group, drawn with the targets of the input. -/
def groupRequest : Request :=
  ⟨[⟨⟨"a"⟩, some ⟨"Input", ∅⟩, [], [⟨"x"⟩, ⟨"x"⟩], none⟩,
    ⟨⟨"g"⟩, none, [], [], some [⟨⟨"x"⟩, some ⟨"Add", ∅⟩, [⟨"a"⟩, ⟨"x"⟩, ⟨"a"⟩], [], none⟩]⟩,
    ⟨⟨"y"⟩, some ⟨"Output", ∅⟩, [⟨"x"⟩], [], none⟩], none, some [⟨"y"⟩, ⟨"y"⟩]⟩

/-- A node that is described twice and takes its own result, and a request with a group. -/
theorem build_sound_loop :
    (∃ g, (build loopDescriptions (some [⟨"a"⟩, ⟨"a"⟩]) none).result = .ok g ∧
      g.Normalizes loopDescriptions (some [⟨"a"⟩, ⟨"a"⟩]) none) ∧
    ∃ g, (ofRequest groupRequest).result = .ok g ∧
      ∃ ds, groupRequest.descriptions.result = .ok ds ∧
        g.Normalizes ds groupRequest.inputs groupRequest.outputs := by
  obtain ⟨g, hg⟩ :
      ∃ g, (build loopDescriptions (some [⟨"a"⟩, ⟨"a"⟩]) none).result = .ok g := by
    rw [build_result]
    exact ⟨_, rfl⟩
  obtain ⟨g', hg'⟩ : ∃ g, (ofRequest groupRequest).result = .ok g := by
    rw [ofRequest, Traced.result_bind]
    simp only [build_result]
    exact ⟨_, rfl⟩
  exact ⟨⟨g, hg, build_sound.1 _ _ _ _ hg⟩, g', hg', build_sound.2 _ _ hg'⟩

end Graph

end LayerGraph
