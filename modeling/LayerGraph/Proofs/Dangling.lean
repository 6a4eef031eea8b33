import LayerGraph.Proofs.Embedding
import LayerGraph.Proofs.Outcome

/-! # Dangling layers

Layers that take nothing from the rest of a network do not matter to its program, wherever among the
others they are declared and however they are connected with each other.  They stand in the same
maps and lists as everything else, so the graph is another one, but the old graph is embedded in it:
the old nodes keep their order and their targets, and there are no new inputs and outputs.

## Key results

- `OrderedMap.ofList_filterKeys`: inserting other keys leaves the entries of a key alone
- `Declarations.extends_of_inserted`, `Declarations.Extends.consumers_eq`: the old declarations
  among the new ones
- `Graph.embeds_of_inserted`: the old graph is embedded in the new one
- `Graph.Embeds.modelOf_eq`, `Graph.Embeds.modelFault?_eq`: both give the same functional programs
- `Graph.compile_dangling`: compiling with and without dangling layers -/

namespace LayerGraph

/-- The list `ds'` consists of `ds` and of `extras`, which have been put in at some places. -/
inductive Inserted : (ds extras ds' : List Description) → Prop
  | nil : Inserted [] [] []
  | keep {ds extras ds' : List Description} (d : Description) (h : Inserted ds extras ds') :
    Inserted (d :: ds) extras (d :: ds')
  | extra {ds extras ds' : List Description} (d : Description) (h : Inserted ds extras ds') :
    Inserted ds (d :: extras) (d :: ds')

/-- The extra descriptions describe other nodes than the given ones.  These are layers, and take
    only each other's results. -/
structure Dangling (ds extras : List Description) : Prop where
  fresh : ∀ d ∈ extras, d.id ∉ ds.map Description.id
  layers : ∀ d ∈ extras, d.role = .layer
  closed : ∀ d ∈ extras, ∀ s ∈ d.sources, s ∈ extras.map Description.id

namespace Inserted

variable {ds extras ds' : List Description}

/-- The new list holds the old descriptions and the extra ones. -/
theorem mem_iff (h : Inserted ds extras ds') (d : Description) :
    d ∈ ds' ↔ d ∈ ds ∨ d ∈ extras := by
  induction h with
  | nil => simp
  | keep d' _ ih => rw [List.mem_cons, List.mem_cons, ih, or_assoc]
  | extra d' _ ih => rw [List.mem_cons, List.mem_cons, ih, or_left_comm]

/-- Leaving out the extra descriptions gives back the old list. -/
theorem filter_eq (h : Inserted ds extras ds') {own : Description → Bool}
    (hown : ∀ d ∈ ds, own d = true) (hextra : ∀ d ∈ extras, own d = false) :
    ds'.filter own = ds := by
  induction h with
  | nil => rfl
  | keep d _ ih =>
    rw [List.forall_mem_cons] at hown
    rw [List.filter_cons_of_pos hown.1, ih hown.2 hextra]
  | extra d _ ih =>
    rw [List.forall_mem_cons] at hextra
    rw [List.filter_cons_of_neg (by simp [hextra.1]), ih hown hextra.2]

end Inserted

/-! ## Maps -/

namespace OrderedMap

variable {κ α : Type}

/-- The entries with some of the keys, in their order. -/
def filterKeys (m : OrderedMap κ α) (p : κ → Bool) : OrderedMap κ α where
  entries := m.entries.filter fun e => p e.1
  distinct := m.distinct.sublist (List.filter_sublist.map Prod.fst)

/-- The keys that are kept stay in their order. -/
private theorem keys_filterKeys (m : OrderedMap κ α) (p : κ → Bool) :
    (m.filterKeys p).keys = m.keys.filter p := by
  rw [keys, keys, List.filter_map]
  rfl

variable [DecidableEq κ]

/-- A key that is kept has its old value. -/
private theorem get?_filterKeys (m : OrderedMap κ α) {p : κ → Bool} {k : κ} (hk : p k = true) :
    (m.filterKeys p).get? k = m.get? k := by
  rw [get?, get?, filterKeys, List.find?_filter]
  congr 2
  funext e
  by_cases he : e.1 = k
  · simp [he, hk]
  · simp [he]

/-- Inserting under a key that is not kept changes nothing. -/
private theorem filterKeys_insert (m : OrderedMap κ α) (p : κ → Bool) (k : κ) (v : α) :
    (m.insert k v).filterKeys p =
      if p k then (m.filterKeys p).insert k v else m.filterKeys p := by
  -- By induction on the entries up to the one that is replaced.
  have go : ∀ entries : List (κ × α), (put k v entries).filter (fun e => p e.1) =
      if p k then put k v (entries.filter fun e => p e.1)
      else entries.filter fun e => p e.1 := by
    intro entries
    induction entries with
    | nil => by_cases hk : p k <;> simp [put, hk]
    | cons e rest ih =>
      by_cases he : e.1 = k
      · by_cases hk : p k <;> simp [put, he, hk]
      · by_cases hk : p k <;> by_cases hpe : p e.1 <;> simp_all [put]
  refine OrderedMap.ext ((go m.entries).trans ?_)
  split
  · rfl
  · rfl

/-- Keeping some keys of a map is keeping the entries that have them. -/
theorem ofList_filterKeys (entries : List (κ × α)) (p : κ → Bool) :
    (ofList entries).filterKeys p = ofList (entries.filter fun e => p e.1) := by
  -- The entries that have been inserted before are carried along.
  have go : ∀ (entries : List (κ × α)) (m : OrderedMap κ α),
      (entries.foldl (fun m e => m.insert e.1 e.2) m).filterKeys p =
        (entries.filter fun e => p e.1).foldl (fun m e => m.insert e.1 e.2) (m.filterKeys p) := by
    intro entries
    induction entries with
    | nil => intro m; rfl
    | cons e rest ih =>
      intro m
      rw [List.foldl_cons, ih, filterKeys_insert, List.filter_cons]
      split
      · rfl
      · rfl
  exact go entries empty

end OrderedMap

/-! ## Declarations -/

namespace Declarations

/-- Of the declarations in `decls'`, those of the nodes that are `own` make up `decls`.  The others
    are layers and take only each other's results. -/
structure Extends (own : NodeId → Bool) (decls decls' : Declarations) : Prop where
  eq_filterKeys : decls = decls'.filterKeys own
  layers : ∀ id d, decls'.get? id = some d → own id = false → d.role = .layer
  closed : ∀ id d, decls'.get? id = some d → own id = false → ∀ s ∈ d.sources, own s = false

/-- With dangling descriptions among them the old declarations are extended. -/
theorem extends_of_inserted {ds extras ds' : List Description} (h : Inserted ds extras ds')
    (hd : Dangling ds extras) :
    Extends (fun id => id ∉ extras.map Description.id) (ofList ds) (ofList ds') := by
  -- The ids of the extra descriptions are fresh.
  have hown : ∀ d ∈ ds, d.id ∉ extras.map Description.id := by
    intro d hmem hid
    obtain ⟨e, he, heq⟩ := List.mem_map.mp hid
    exact hd.fresh e he (heq ▸ List.mem_map_of_mem hmem)
  -- What is declared for the id of an extra description is an extra description.
  have hextra : ∀ id d, (ofList ds').get? id = some d → id ∈ extras.map Description.id →
      d ∈ extras := by
    intro id d hget hid
    rw [get?_ofList, lastDescription?] at hget
    have hmem : d ∈ ds' := List.mem_reverse.mp (List.mem_of_find?_eq_some hget)
    have heq : d.id = id := by simpa using List.find?_some hget
    refine ((h.mem_iff d).mp hmem).resolve_left fun hds => ?_
    exact hown d hds (heq ▸ hid)
  refine ⟨?_, fun id d hget hid => ?_, fun id d hget hid => ?_⟩
  · have hfilter : ds'.filter (fun d => d.id ∉ extras.map Description.id) = ds := by
      refine h.filter_eq (fun d hmem => ?_) fun d hmem => ?_
      · exact decide_eq_true (hown d hmem)
      · exact decide_eq_false (not_not_intro (List.mem_map_of_mem hmem))
    rw [ofList, ofList, OrderedMap.ofList_filterKeys, List.filter_map]
    conv => lhs; rw [← hfilter]
    rfl
  · have hid' : id ∈ extras.map Description.id := not_not.mp (of_decide_eq_false hid)
    exact hd.layers d (hextra id d hget hid')
  · intro s hs
    have hid' : id ∈ extras.map Description.id := not_not.mp (of_decide_eq_false hid)
    exact decide_eq_false (not_not_intro (hd.closed d (hextra id d hget hid') s hs))

namespace Extends

variable {own : NodeId → Bool} {decls decls' : Declarations}

/-- The old nodes are declared as they were. -/
theorem get?_eq (h : Extends own decls decls') {id : NodeId} (hid : own id = true) :
    decls.get? id = decls'.get? id := by
  rw [h.eq_filterKeys, OrderedMap.get?_filterKeys _ hid]

/-- The old nodes are the ones that belong to the old declarations. -/
private theorem own_of_mem (h : Extends own decls decls') {id : NodeId} (hid : id ∈ decls.keys) :
    own id = true := by
  rw [h.eq_filterKeys, OrderedMap.keys_filterKeys, List.mem_filter] at hid
  exact hid.2

/-- The other declarations add nothing to the consumers. -/
theorem consumers_eq (h : Extends own decls decls') {id : NodeId} (hid : own id = true) :
    decls.consumers id = decls'.consumers id := by
  have hother : ∀ e ∈ decls'.entries, own e.1 = false →
      (e.2.sources.filter (· = id)).map (fun _ => e.1) = [] := by
    intro e he hown
    have hget : decls'.get? e.1 = some e.2 := (decls'.get?_eq_some_iff _ _).mpr he
    rw [List.map_eq_nil_iff, List.filter_eq_nil_iff]
    -- Otherwise a source of another declaration would be own.
    intro s hs heq
    have hs' := h.closed e.1 e.2 hget hown s hs
    rw [of_decide_eq_true heq, hid] at hs'
    cases hs'
  rw [consumers, consumers, h.eq_filterKeys]
  exact List.flatMap_filter_of_eq_nil hother

/-- Old nodes are made as they were: dangling layers are not among their targets. -/
private theorem node_eq (h : Extends own decls decls') {id : NodeId} (hid : own id = true)
    (d : Description) : decls.node id d = decls'.node id d := by
  rw [node, node, targets, targets, h.consumers_eq hid]

end Extends

end Declarations

/-! ## Graphs -/

@[simp] theorem NodeId.map_refl (ids : List NodeId) :
    ids.map (Function.Embedding.refl NodeId) = ids := List.map_id ids

/-- Renaming every id to itself changes no node, … -/
private theorem Node.rename_refl (n : Node) : n.rename (.refl NodeId) = n := by
  simp [Node.rename]

/-- … no fault … -/
private theorem GraphFault.rename_refl (fault : GraphFault) :
    fault.rename (.refl NodeId) = fault := by
  cases fault <;> rfl

/-- … and no error. -/
private theorem CompileError.rename_refl (e : CompileError) : e.rename (.refl NodeId) = e := by
  cases e with
  | malformedGraph node fault => simp [CompileError.rename, GraphFault.rename_refl]
  | cyclicGraph nodes blockedBy => simp [CompileError.rename]
  | _ => rfl

namespace Graph

variable {g g' : Graph}

/-- Without a list the endpoints are in the order of declaration. -/
private theorem listedFirst_none (g : Graph) (role : Role) :
    g.listedFirst role none = g.ids.filter (g.hasRole role) := by
  simp [listedFirst]

section Extended

variable {own : NodeId → Bool} {decls decls' : Declarations}

/-- Old nodes are found as they were. -/
private theorem get?_of_extends (h : decls.Extends own decls') (hnodes : g.nodes = decls.nodes)
    (hnodes' : g'.nodes = decls'.nodes) {id : NodeId} (hid : own id = true) :
    g'.get? id = g.get? id := by
  rw [get?_of_nodes hnodes, get?_of_nodes hnodes', h.get?_eq hid]
  refine congrArg (Option.map · _) (funext fun d => ?_)
  exact (h.node_eq hid d).symm

/-- The old ids are those among the new ones that belong to the old declarations. -/
private theorem ids_of_extends (h : decls.Extends own decls') (hnodes : g.nodes = decls.nodes)
    (hnodes' : g'.nodes = decls'.nodes) : g.ids = g'.ids.filter own := by
  rw [ids_of_nodes hnodes, ids_of_nodes hnodes', h.eq_filterKeys, OrderedMap.keys_filterKeys]

/-- The nodes that are not own are neither inputs nor outputs. -/
theorem filter_hasRole_of_extends (h : decls.Extends own decls') (hnodes : g.nodes = decls.nodes)
    (hnodes' : g'.nodes = decls'.nodes) {role : Role} (hrole : role ≠ .layer) :
    g'.ids.filter (g'.hasRole role) = g.ids.filter (g.hasRole role) := by
  rw [ids_of_extends h hnodes hnodes', List.filter_filter]
  refine List.filter_congr fun id _ => ?_
  cases hid : own id with
  | true => rw [hasRole, hasRole, get?_of_extends h hnodes hnodes' hid, Bool.and_true]
  | false =>
    rw [Bool.and_false, hasRole, get?_of_nodes hnodes', Option.any_map, Option.any_eq_false]
    intro d hd
    have hlayer : (decls'.node id d).role = .layer := h.layers id d hd hid
    simpa [hlayer] using hrole.symm

/-- A graph of extended declarations with the same endpoints has the old graph in it. -/
private theorem embeds_of_extends (h : decls.Extends own decls') (hnodes : g.nodes = decls.nodes)
    (hnodes' : g'.nodes = decls'.nodes) (hinputs : g'.inputs = g.inputs)
    (houtputs : g'.outputs = g.outputs) : g.Embeds (.refl NodeId) g' := by
  have hids := ids_of_extends h hnodes hnodes'
  refine ⟨fun id hid => ?_, ?_, by simpa using hinputs, by simpa using houtputs⟩
  · have hown : own id = true := h.own_of_mem (ids_of_nodes hnodes ▸ hid)
    simpa [funext Node.rename_refl] using get?_of_extends h hnodes hnodes' hown
  · -- Of the nodes of the outer graph, those of the inner one are the own ones.
    have hmem : ∀ id ∈ g'.ids, (id ∈ g.ids ↔ own id = true) := fun id hid => by
      rw [hids, List.mem_filter, and_iff_right hid]
    rw [NodeId.map_refl]
    conv => rhs; rw [hids]
    refine List.filter_congr fun id hid => ?_
    simp [hmem id hid]

end Extended

/-- The old graph is embedded in the one with dangling layers. -/
theorem embeds_of_inserted {ds extras ds' : List Description} (h : Inserted ds extras ds')
    (hd : Dangling ds extras) (hg : (ofDescriptions ds).result = .ok g)
    (hg' : (ofDescriptions ds').result = .ok g') : g.Embeds (.refl NodeId) g' := by
  have hextends := Declarations.extends_of_inserted h hd
  obtain ⟨_, hnodes, hins, houts⟩ := (build_eq_ok_iff ds none none g).mp hg
  obtain ⟨_, hnodes', hins', houts'⟩ := (build_eq_ok_iff ds' none none g').mp hg'
  rw [endpoints_eq_ok_iff, listedFirst_none] at hins houts hins' houts'
  refine embeds_of_extends hextends hnodes hnodes' ?_ ?_
  · rw [hins.2, hins'.2, filter_hasRole_of_extends hextends hnodes hnodes' (by decide)]
  · rw [houts.2, houts'.2, filter_hasRole_of_extends hextends hnodes hnodes' (by decide)]

/-! ## Programs -/

namespace Embeds

variable {order : List NodeId}

/-- A graph that is embedded by keeping its ids keeps its nodes, … -/
private theorem get?_refl (h : g.Embeds (.refl NodeId) g') {id : NodeId} (hid : id ∈ g.ids) :
    g'.get? id = g.get? id := by
  simpa [funext Node.rename_refl] using h.get? id hid

/-- … their sources, … -/
private theorem sourcesOf_refl (h : g.Embeds (.refl NodeId) g') {id : NodeId} (hid : id ∈ g.ids) :
    g'.sourcesOf id = g.sourcesOf id := by
  rw [sourcesOf, sourcesOf, h.get?_refl hid]

/-- … the outputs … -/
private theorem outputs_refl (h : g.Embeds (.refl NodeId) g') : g'.outputs = g.outputs := by
  simpa using h.outputs

/-- … and the inputs. -/
private theorem inputs_refl (h : g.Embeds (.refl NodeId) g') : g'.inputs = g.inputs := by
  simpa using h.inputs

/-- The old nodes keep their names. -/
private theorem map_nameOf_eq (h : g.Embeds (.refl NodeId) g') {ids : List NodeId}
    (hids : ∀ id ∈ ids, id ∈ g.ids) : ids.map g'.nameOf = ids.map g.nameOf := by
  refine List.map_congr_left fun id hid => ?_
  have hget := h.get?_refl (hids id hid)
  rw [nameOf, nameOf, isInput, isInput, hasRole, hasRole, isOutput, isOutput, hget]

private theorem map_nameOf_sourcesOf_eq (hg : g.WellFormed) (h : g.Embeds (.refl NodeId) g')
    {id : NodeId} (hid : id ∈ g.ids) :
    (g'.sourcesOf id).map g'.nameOf = (g.sourcesOf id).map g.nameOf := by
  rw [h.sourcesOf_refl hid, h.map_nameOf_eq fun s hs => hg.sourcesDeclared id s hs]

/-- The old nodes keep their statements. -/
theorem bindingOf_eq (hg : g.WellFormed) (h : g.Embeds (.refl NodeId) g') {id : NodeId}
    (hid : id ∈ g.ids) : g'.bindingOf id = g.bindingOf id := by
  have hget := h.get?_refl hid
  have hname : g'.nameOf id = g.nameOf id := by
    simpa using h.map_nameOf_eq (List.forall_mem_singleton.mpr hid)
  rw [bindingOf, bindingOf, kindOf, kindOf, parametersOf, parametersOf, hget, hname,
    h.map_nameOf_sourcesOf_eq hg hid]

/-- For nodes of the inner graph both graphs give the same functional program, … -/
theorem modelOf_eq (hg : g.WellFormed) (h : g.Embeds (.refl NodeId) g')
    (horder : ∀ id ∈ order, id ∈ g.ids) : g'.modelOf order = g.modelOf order := by
  have hfilter : (order.filter fun id => !g'.isOutput id) = order.filter fun id => !g.isOutput id :=
    List.filter_congr fun id hid => by rw [isOutput, isOutput, h.get?_refl (horder id hid)]
  have hbindings : (order.filter fun id => !g.isOutput id).map g'.bindingOf =
      (order.filter fun id => !g.isOutput id).map g.bindingOf :=
    List.map_congr_left fun id hid => h.bindingOf_eq hg (horder id (List.mem_filter.mp hid).1)
  have houtputs : (g.outputs.flatMap fun output => (g'.sourcesOf output).map g'.nameOf) =
      g.outputs.flatMap fun output => (g.sourcesOf output).map g.nameOf :=
    List.flatMap_congr fun output hout =>
      h.map_nameOf_sourcesOf_eq hg (hg.mem_ids_of_mem_outputs hout)
  rw [modelOf, modelOf, hfilter, hbindings, h.inputs_refl, h.outputs_refl, houtputs,
    h.map_nameOf_eq fun i hi => hg.mem_ids_of_mem_inputs hi]

/-- … and the same thing goes wrong with it. -/
theorem modelFault?_eq (hg : g.WellFormed) (h : g.Embeds (.refl NodeId) g')
    (horder : ∀ id ∈ order, id ∈ g.ids) : g'.modelFault? order = g.modelFault? order := by
  have hids : ∀ id ∈ order, id ∈ g'.ids := by
    intro id hid
    obtain ⟨n, hn⟩ := (g.mem_ids_iff id).mp (horder id hid)
    exact (g'.mem_ids_iff id).mpr ⟨n, by rw [h.get?_refl (horder id hid), hn]⟩
  -- The outputs have the sources that they had.
  have houtputs : (g.outputs.findSome? fun output =>
      (g'.outputFault? order output).map (CompileError.malformedGraph output)) =
      g.outputs.findSome? fun output =>
        (g.outputFault? order output).map (CompileError.malformedGraph output) := by
    refine List.findSome?_congr fun output hout => ?_
    rw [outputFault?, outputFault?, h.sourcesOf_refl (hg.mem_ids_of_mem_outputs hout)]
  -- No id in the list is unknown to either graph, so the endpoints decide.
  rw [modelFault?, modelFault?, (g.findSome?_undeclared?_eq_none_iff order).mpr horder,
    (g'.findSome?_undeclared?_eq_none_iff order).mpr hids, outputsFault?, outputsFault?,
    h.inputs_refl, h.outputs_refl, houtputs]

/-- Both graphs have the same schedule. -/
private theorem schedule_refl (hg : g.WellFormed) (hg' : g'.WellFormed)
    (h : g.Embeds (.refl NodeId) g') : g'.schedule.result = g.schedule.result := by
  rw [h.schedule_result hg hg']
  cases g.schedule.result with
  | error e => exact congrArg Except.error (CompileError.rename_refl e)
  | ok order => exact congrArg Except.ok (List.map_id order)

end Embeds

/-- Putting descriptions of dangling layers among those of a network, at whatever places, changes
    neither the functional program of the network nor the error if there is none. -/
theorem compile_dangling {ds extras ds' : List Description} (h : Inserted ds extras ds')
    (hd : Dangling ds extras) (hg : (ofDescriptions ds).result = .ok g)
    (hg' : (ofDescriptions ds').result = .ok g') {o : Options} (hstyle : o.style = .functional) :
    (g'.compile o).result = (g.compile o).result := by
  have hwf := wellFormed_of_build hg
  have hwf' := wellFormed_of_build hg'
  have hembeds := embeds_of_inserted h hd hg hg'
  -- The schedules are equal, and a schedule has only nodes of the old graph in it.
  rw [compile_result, compile_result, hembeds.schedule_refl hwf hwf']
  cases hschedule : g.schedule.result with
  | error e => rfl
  | ok order =>
    have horder := mem_ids_of_mem_schedule hwf hschedule
    rw [Except.ok_bind, Except.ok_bind, generate_functional g' hstyle,
      generate_functional g hstyle, functional_result hwf', functional_result hwf,
      hembeds.modelOf_eq hwf horder, hembeds.modelFault?_eq hwf horder]

/-- Two layers that take each other's results, one of them declared twice. -/
def loopExtras : List Description := [
  ⟨⟨"u"⟩, "Dense", ∅, [⟨"v"⟩], none⟩,
  ⟨⟨"v"⟩, "Add", ∅, [⟨"u"⟩, ⟨"u"⟩], some [⟨"x"⟩]⟩,
  ⟨⟨"u"⟩, "Dense", ∅, [⟨"v"⟩], some [⟨"v"⟩, ⟨"v"⟩]⟩]

/-- The descriptions of `loopDescriptions`, with these layers among them. -/
def loopDangling : List Description := [
  ⟨⟨"x"⟩, "Dense", ∅, [], none⟩,
  ⟨⟨"u"⟩, "Dense", ∅, [⟨"v"⟩], none⟩,
  ⟨⟨"a"⟩, "Input", ∅, [], some [⟨"y"⟩]⟩,
  ⟨⟨"v"⟩, "Add", ∅, [⟨"u"⟩, ⟨"u"⟩], some [⟨"x"⟩]⟩,
  ⟨⟨"u"⟩, "Dense", ∅, [⟨"v"⟩], some [⟨"v"⟩, ⟨"v"⟩]⟩,
  ⟨⟨"x"⟩, "Add", ∅, [⟨"a"⟩, ⟨"x"⟩, ⟨"a"⟩], none⟩,
  ⟨⟨"y"⟩, "Output", ∅, [⟨"x"⟩], some []⟩]

/-- A layer between an input and an output. -/
def shortDescriptions : List Description := [
  ⟨⟨"y"⟩, "Output", ∅, [⟨"x"⟩], none⟩,
  ⟨⟨"a"⟩, "Input", ∅, [], some []⟩,
  ⟨⟨"x"⟩, "Dense", ∅, [⟨"a"⟩], none⟩]

/-- The same, with the layers that take each other's results among them. -/
def shortDangling : List Description := [
  ⟨⟨"u"⟩, "Dense", ∅, [⟨"v"⟩], none⟩,
  ⟨⟨"v"⟩, "Add", ∅, [⟨"u"⟩, ⟨"u"⟩], some [⟨"x"⟩]⟩,
  ⟨⟨"y"⟩, "Output", ∅, [⟨"x"⟩], none⟩,
  ⟨⟨"a"⟩, "Input", ∅, [], some []⟩,
  ⟨⟨"u"⟩, "Dense", ∅, [⟨"v"⟩], some [⟨"v"⟩, ⟨"v"⟩]⟩,
  ⟨⟨"x"⟩, "Dense", ∅, [⟨"a"⟩], none⟩]

/-- The graph of `shortDescriptions`. -/
def short : Graph where
  nodes := ⟨[
    (⟨"y"⟩, ⟨"Output", ∅, [⟨"x"⟩], []⟩),
    (⟨"a"⟩, ⟨"Input", ∅, [], [⟨"x"⟩]⟩),
    (⟨"x"⟩, ⟨"Dense", ∅, [⟨"a"⟩], [⟨"y"⟩]⟩)], by decide⟩
  inputs := [⟨"a"⟩]
  outputs := [⟨"y"⟩]

/-- The cycle of the extra layers shows up neither in the error of a network that has another cycle,
    nor in the program of one that has none. -/
theorem compile_dangling_loop :
    Inserted loopDescriptions loopExtras loopDangling ∧ Dangling loopDescriptions loopExtras ∧
    (∃ g', (ofDescriptions loopDangling).result = .ok g' ∧
      (g'.compile { target := .tensorFlowJs }).result =
        .error (.cyclicGraph [⟨"x"⟩, ⟨"y"⟩] [])) ∧
    Inserted shortDescriptions loopExtras shortDangling ∧ Dangling shortDescriptions loopExtras ∧
    ∃ g', (ofDescriptions shortDangling).result = .ok g' ∧
      (g'.compile { }).result = .ok (Text.ofLines [
        "import keras",
        "",
        "def build_model():",
        "    input_a = keras.layers.Input()",
        "    layer_x = keras.layers.Dense()(input_a)",
        "    model = keras.models.Model(inputs=input_a, outputs=layer_x)",
        "    return model"]) := by
  have hinserted : Inserted loopDescriptions loopExtras loopDangling :=
    .keep _ (.extra _ (.keep _ (.extra _ (.extra _ (.keep _ (.keep _ .nil))))))
  have hdangling : Dangling loopDescriptions loopExtras := ⟨by decide, by decide, by decide⟩
  have hinserted' : Inserted shortDescriptions loopExtras shortDangling :=
    .extra _ (.extra _ (.keep _ (.keep _ (.extra _ (.keep _ .nil)))))
  have hdangling' : Dangling shortDescriptions loopExtras := ⟨by decide, by decide, by decide⟩
  refine ⟨hinserted, hdangling, ?_, hinserted', hdangling', ?_⟩
  · have hschedule : loop.schedule.result = .error (.cyclicGraph [⟨"x"⟩, ⟨"y"⟩] []) := by cbv
    have hbuild : (ofDescriptions loopDescriptions).result = .ok loop := by
      rw [ofDescriptions, build_result]
      rfl
    obtain ⟨g', hg'⟩ : ∃ g', (ofDescriptions loopDangling).result = .ok g' := by
      rw [ofDescriptions, build_result]
      exact ⟨_, rfl⟩
    refine ⟨g', hg', ?_⟩
    rw [compile_dangling hinserted hdangling hbuild hg' rfl, compile_result, hschedule]
    rfl
  · have hschedule : short.schedule.result = .ok [⟨"a"⟩, ⟨"x"⟩] := by cbv
    have hbuild : (ofDescriptions shortDescriptions).result = .ok short := by
      rw [ofDescriptions, build_result]
      rfl
    obtain ⟨g', hg'⟩ : ∃ g', (ofDescriptions shortDangling).result = .ok g' := by
      rw [ofDescriptions, build_result]
      exact ⟨_, rfl⟩
    refine ⟨g', hg', ?_⟩
    rw [compile_dangling hinserted' hdangling' hbuild hg' rfl, compile_result, hschedule]
    decide +kernel

end Graph

end LayerGraph
