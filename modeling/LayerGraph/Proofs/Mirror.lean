import LayerGraph.Graph.Build
import Mathlib.Data.List.Sort

/-! # Mirrored edges

The targets of the nodes come about in two passes.  The first takes all edges from the lists of
sources and adds each of them to the targets of its source.  The second goes through the declared
lists of targets, and overwrites the targets of a node if its declared list is equal to them after
both have been sorted; otherwise it reports the list.

Here both passes are brought into closed form.  What the first pass has done at any point depends on
the edges so far, so the targets of a node are its `consumers` in the end.  The second pass visits
every node at most once, so what it does to one node it decides by the consumers of that node.  And
sorted lists are equal exactly if the lists are permutations of each other.

## Key results

- `Graph.foldl_addEdge`: the nodes after some edges have been added
- `NodeId.mergeSort_eq_iff`: sorting decides whether two lists are permutations
- `Graph.foldlM_orderTargets`: the nodes and the reports after some declared lists
- `Declarations.mirrorTargets_eq`: the nodes of a graph and the reports about their targets -/

namespace LayerGraph

namespace OrderedMap

variable {κ α β γ : Type}

/-- Changing all values twice is one change. -/
private theorem mapValues_mapValues (m : OrderedMap κ α) (f : κ → α → β) (h : κ → β → γ) :
    (m.mapValues f).mapValues h = m.mapValues fun k v => h k (f k v) := by
  ext1
  simp only [mapValues, List.map_map, Function.comp_def]

/-- What every value of the map is changed to decides about the changed map. -/
theorem mapValues_congr {m : OrderedMap κ α} {f h : κ → α → β}
    (hfh : ∀ e ∈ m.entries, f e.1 e.2 = h e.1 e.2) : m.mapValues f = m.mapValues h := by
  ext1
  refine List.map_congr_left fun e he => ?_
  rw [hfh e he]

end OrderedMap

/-! ## Closed form -/

namespace Declarations

/-- The nodes that take the result of a node, in the order of declaration, each as often as it
    takes it. -/
def consumers (decls : Declarations) (id : NodeId) : List NodeId :=
  decls.entries.flatMap fun e => (e.2.sources.filter (· = id)).map fun _ => e.1

/-- The targets of a node: its consumers, in the order in which they were declared as targets if
    just these were. -/
def targets (decls : Declarations) (id : NodeId) (d : Description) : List NodeId :=
  match d.targets with
  | some declared => if declared.Perm (decls.consumers id) then declared else decls.consumers id
  | none => decls.consumers id

/-- The node that a description declares. -/
def node (decls : Declarations) (id : NodeId) (d : Description) : Node :=
  (unlinkedNode d).withTargets (decls.targets id d)

/-- The nodes of the graph. -/
def nodes (decls : Declarations) : OrderedMap NodeId Node := decls.mapValues decls.node

/-- What is reported of the targets of a node. -/
def replacement? (decls : Declarations) (id : NodeId) (d : Description) : Option Event :=
  match d.targets with
  | some declared =>
    if declared.Perm (decls.consumers id) then none
    else some (.targetsReplaced id declared (decls.consumers id))
  | none => none

end Declarations

/-! ## Adding edges -/

namespace Graph

/-- Every node has got the targets of its own edges, in the order of the edges. -/
theorem foldl_addEdge (edges : List (NodeId × NodeId)) (nodes : OrderedMap NodeId Node) :
    edges.foldl addEdge nodes = nodes.mapValues fun id n =>
      n.withTargets (n.targets ++ (edges.filter (·.1 = id)).map Prod.snd) := by
  induction edges generalizing nodes with
  | nil =>
    ext1
    simp [OrderedMap.mapValues, Node.withTargets]
  | cons edge edges ih =>
    rw [List.foldl_cons, ih, addEdge, OrderedMap.modify, OrderedMap.mapValues_mapValues]
    congr 1
    funext id n
    -- The first edge is counted for its own node, before the others.
    by_cases hid : id = edge.1
    · simp [hid, Node.withTargets]
    · simp [hid, Ne.symm hid]

end Graph

namespace Declarations

/-- The edges from a node lead to its consumers. -/
theorem map_snd_filter_edges (decls : Declarations) (id : NodeId) :
    ((Graph.edges decls.unlinked).filter (·.1 = id)).map Prod.snd = decls.consumers id := by
  simp only [Graph.edges, unlinked, OrderedMap.mapValues, unlinkedNode, consumers, List.flatMap_map,
    List.filter_flatMap, List.map_flatMap, List.filter_map, List.map_map, Function.comp_def]

/-- After all edges have been added, the targets of every node are its consumers. -/
theorem foldl_addEdge_edges (decls : Declarations) :
    (Graph.edges decls.unlinked).foldl Graph.addEdge decls.unlinked =
      decls.mapValues fun id d => (unlinkedNode d).withTargets (decls.consumers id) := by
  rw [Graph.foldl_addEdge, unlinked, OrderedMap.mapValues_mapValues]
  congr 1
  funext id d
  rw [← map_snd_filter_edges]
  rfl

end Declarations

/-! ## Sorting -/

/-- Lists of ids are equal after sorting exactly if they are permutations of each other. -/
theorem NodeId.mergeSort_eq_iff (l l' : List NodeId) :
    l.mergeSort NodeId.le = l'.mergeSort NodeId.le ↔ l.Perm l' := by
  have htrans : ∀ a b c : NodeId, a.le b = true → b.le c = true → a.le c = true := by
    intro a b c hab hbc
    simp only [NodeId.le, decide_eq_true_eq] at hab hbc ⊢
    exact String.le_trans hab hbc
  have htotal : ∀ a b : NodeId, (a.le b || b.le a) = true := by
    intro a b
    simpa [NodeId.le] using String.le_total a.text b.text
  constructor
  · intro h
    have hl := l.mergeSort_perm NodeId.le
    rw [h] at hl
    exact hl.symm.trans (l'.mergeSort_perm NodeId.le)
  · intro h
    -- Both lists are sorted, and ids with the same text are the same.
    refine List.Perm.eq_of_pairwise (fun a b _ _ hab hba => ?_)
      (List.pairwise_mergeSort htrans htotal l) (List.pairwise_mergeSort htrans htotal l') ?_
    · simp only [NodeId.le, decide_eq_true_eq] at hab hba
      cases a
      cases b
      exact congrArg NodeId.mk (String.le_antisymm hab hba)
    · exact (l.mergeSort_perm NodeId.le).trans (h.trans (l'.mergeSort_perm NodeId.le).symm)

/-! ## Declared lists -/

/-- The node with its targets in the order in which they were declared, if just these were. -/
def Node.orderedAs (n : Node) : Option (List NodeId) → Node
  | some declared => if declared.Perm n.targets then n.withTargets declared else n
  | none => n

namespace Graph

/-- What is reported of a declared list of targets. -/
def mismatch? (nodes : OrderedMap NodeId Node) (declared : NodeId × List NodeId) : Option Event :=
  (nodes.get? declared.1).bind fun n =>
    if declared.2.Perm n.targets then none
    else some (.targetsReplaced declared.1 declared.2 n.targets)

/-- A declared list orders the targets of its node, or is reported. -/
theorem orderTargets_eq (nodes : OrderedMap NodeId Node) (declared : NodeId × List NodeId) :
    orderTargets nodes declared = ⟨(mismatch? nodes declared).toList,
      .ok (nodes.mapValues fun id n =>
        if id = declared.1 then n.orderedAs (some declared.2) else n)⟩ := by
  -- To leave the nodes as they are is to change none of them.
  have hsame : ∀ f : NodeId → Node → Node, (∀ e ∈ nodes.entries, f e.1 e.2 = e.2) →
      nodes.mapValues f = nodes := by
    intro f hf
    ext1
    show nodes.entries.map (fun e => (e.1, f e.1 e.2)) = nodes.entries
    refine (List.map_congr_left fun e he => ?_).trans (List.map_id _)
    rw [hf e he]
    rfl
  -- There is one node with the key.
  have hvalue : ∀ n, nodes.get? declared.1 = some n → ∀ e ∈ nodes.entries,
      e.1 = declared.1 → e.2 = n := by
    intro n hn e he hkey
    have hget := (nodes.get?_eq_some_iff e.1 e.2).mpr he
    rw [hkey, hn] at hget
    exact (Option.some.inj hget).symm
  rw [orderTargets, mismatch?]
  cases hn : nodes.get? declared.1 with
  | none =>
    rw [hsame]
    · rfl
    · intro e he
      refine if_neg fun hkey => ?_
      rw [← hkey, (nodes.get?_eq_some_iff e.1 e.2).mpr he] at hn
      cases hn
  | some n =>
    -- The test compares the sorted lists, which are equal just for permutations.
    have hsorted := NodeId.mergeSort_eq_iff n.targets declared.2
    rw [List.perm_comm] at hsorted
    dsimp only [Option.bind_some]
    by_cases hperm : declared.2.Perm n.targets
    · have hmodify : (nodes.modify declared.1 fun n => n.withTargets declared.2) =
          nodes.mapValues fun id n =>
            if id = declared.1 then n.orderedAs (some declared.2) else n := by
        refine OrderedMap.mapValues_congr fun e he => ?_
        split
        · next hkey => rw [hvalue n hn e he hkey, Node.orderedAs, if_pos hperm]
        · rfl
      rw [if_pos (hsorted.mpr hperm), if_pos hperm, hmodify]
      rfl
    · rw [if_neg (mt hsorted.mp hperm), if_neg hperm, hsame]
      · rfl
      · intro e he
        split
        · next hkey => rw [hvalue n hn e he hkey, Node.orderedAs, if_neg hperm]
        · rfl

/-- Declared lists for different nodes do not interfere with each other. -/
theorem foldlM_orderTargets {declared : List (NodeId × List NodeId)}
    (hdistinct : (declared.map Prod.fst).Nodup) (nodes : OrderedMap NodeId Node) :
    declared.foldlM orderTargets nodes = ⟨declared.filterMap (mismatch? nodes),
      .ok (nodes.mapValues fun id n => n.orderedAs (declared.lookup id))⟩ := by
  induction declared generalizing nodes with
  | nil =>
    have hsame : (nodes.mapValues fun _ n => n) = nodes := OrderedMap.ext (List.map_id _)
    show pure nodes = _
    rw [List.filterMap_nil]
    exact congrArg (fun nodes => Traced.mk [] (.ok nodes)) hsame.symm
  | cons d rest ih =>
    rw [List.map_cons, List.nodup_cons] at hdistinct
    rw [List.foldlM_cons, orderTargets_eq]
    show Traced.mk (_ ++ Traced.events (rest.foldlM _ _)) (Traced.result (rest.foldlM _ _)) = _
    rw [ih hdistinct.2]
    congr 1
    · -- The rest is about other nodes, and these are as they were.
      have hrest : rest.filterMap (mismatch? (nodes.mapValues fun id n =>
          if id = d.1 then n.orderedAs (some d.2) else n)) = rest.filterMap (mismatch? nodes) := by
        refine List.filterMap_congr fun d' hd' => ?_
        have hne : d'.1 ≠ d.1 := fun heq => hdistinct.1 (heq ▸ List.mem_map_of_mem hd')
        simp only [mismatch?, OrderedMap.get?_mapValues, if_neg hne, Option.map_id']
      rw [hrest, List.filterMap_cons]
      cases mismatch? nodes d with
      | none => rfl
      | some event => rfl
    · -- Nothing else is declared for the node of `d`, so the rest leaves it alone.
      rw [OrderedMap.mapValues_mapValues]
      refine congrArg Except.ok (congrArg nodes.mapValues ?_)
      funext id n
      by_cases hid : id = d.1
      · have hnone : rest.lookup d.1 = none := by
          rw [List.lookup_eq_none_iff]
          intro d' hd'
          have hne : d.1 ≠ d'.1 := fun heq => hdistinct.1 (heq ▸ List.mem_map_of_mem hd')
          simpa using hne
        rw [if_pos hid, hid, hnone, List.lookup_cons_self]
        rfl
      · rw [if_neg hid, List.lookup_cons, beq_false_of_ne hid]

end Graph

namespace Declarations

/-- Reports about the targets of all nodes. -/
def replacedTargets (decls : Declarations) : List Event :=
  decls.entries.filterMap fun e => decls.replacement? e.1 e.2

/-- No node has two declared lists of targets. -/
private theorem nodup_declaredTargets (decls : Declarations) :
    (decls.declaredTargets.map Prod.fst).Nodup := by
  refine decls.distinct.sublist ?_
  rw [declaredTargets]
  induction decls.entries with
  | nil => exact .slnil
  | cons e entries ih =>
    rw [List.filterMap_cons]
    cases e.2.targets with
    | none => exact ih.cons _
    | some targets => exact ih.cons_cons _

/-- The declared list of a node is found under its id. -/
private theorem lookup_declaredTargets {decls : Declarations} {e : NodeId × Description}
    (he : e ∈ decls.entries) : decls.declaredTargets.lookup e.1 = e.2.targets := by
  -- By induction on the entries, of which one is `e` and all have other ids.
  have go : ∀ entries : List (NodeId × Description), (entries.map Prod.fst).Nodup → e ∈ entries →
      (entries.filterMap fun e => e.2.targets.map fun targets => (e.1, targets)).lookup e.1 =
        e.2.targets := by
    intro entries
    induction entries with
    | nil => exact fun _ hmem => nomatch hmem
    | cons e' entries ih =>
      intro hdistinct hmem
      rw [List.map_cons, List.nodup_cons] at hdistinct
      rw [List.filterMap_cons]
      rcases List.mem_cons.mp hmem with rfl | hmem
      · cases htargets : e.2.targets with
        | some targets => exact List.lookup_cons_self
        | none =>
          -- No other declaration is about the same node.
          rw [Option.map_none, List.lookup_eq_none_iff]
          intro p hp
          obtain ⟨e', he', hp⟩ := List.mem_filterMap.mp hp
          obtain ⟨targets, _, rfl⟩ := Option.map_eq_some_iff.mp hp
          have hne : e.1 ≠ e'.1 := fun heq => hdistinct.1 (heq ▸ List.mem_map_of_mem he')
          simpa using hne
      · have hne : e.1 ≠ e'.1 := fun heq => hdistinct.1 (heq ▸ List.mem_map_of_mem hmem)
        cases e'.2.targets with
        | none => exact ih hdistinct.2 hmem
        | some targets =>
          rw [Option.map_some, List.lookup_cons, beq_false_of_ne hne]
          exact ih hdistinct.2 hmem
  exact go decls.entries decls.distinct he

/-- The nodes of a graph have their consumers for targets, in the declared order where just these
    were declared, and the other declared lists are reported. -/
theorem mirrorTargets_eq (decls : Declarations) :
    Graph.mirrorTargets decls.unlinked decls.declaredTargets =
      ⟨decls.replacedTargets, .ok decls.nodes⟩ := by
  rw [Graph.mirrorTargets, foldl_addEdge_edges,
    Graph.foldlM_orderTargets decls.nodup_declaredTargets, OrderedMap.mapValues_mapValues]
  congr 1
  · -- The events: what is reported is what differs from the consumers.
    rw [declaredTargets, List.filterMap_filterMap]
    refine List.filterMap_congr fun e he => ?_
    rw [replacement?]
    cases e.2.targets with
    | none => rfl
    | some declared =>
      have hget := (decls.get?_eq_some_iff e.1 e.2).mpr he
      simp only [Option.map_some, Option.bind_some, Graph.mismatch?, OrderedMap.get?_mapValues,
        hget]
      rfl
  · -- The nodes: the targets that are kept or taken instead.
    refine congrArg Except.ok (OrderedMap.mapValues_congr fun e he => ?_)
    rw [lookup_declaredTargets he, node, targets]
    cases e.2.targets with
    | none => rfl
    | some declared =>
      show (if declared.Perm (decls.consumers e.1) then _ else _) =
        Node.withTargets _ (if declared.Perm (decls.consumers e.1) then _ else _)
      split
      · rfl
      · rfl

end Declarations

end LayerGraph
