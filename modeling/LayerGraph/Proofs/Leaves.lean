import LayerGraph.Compile
import LayerGraph.Proofs.Build

/-! # Only the leaves of a request matter

The groups of a request are opened until only layers without children are left.  What a request
describes are therefore its leaves, from left to right, and a leaf that does not say what it is
stops everything.  Neither the groups nor what they say about themselves matter to the graph of a
request and to its program.

A leaf has a position: the way to it from the top, with the number of the child to take at each
level.  From left to right means in the lexicographic order of positions, at whatever depths the
leaves are.

## Key results

- `Layer.enumerates_leavesAll`: the leaves are listed in the order of their positions
- `Layer.descriptionsAll_result`: layers describe what their leaves describe
- `Request.descriptions_of_leaves`: what comes of a request depends on its leaves alone -/

namespace LayerGraph

namespace Layer

/-! ## Leaves and their positions -/

/-- There is a leaf at a position inside a layer.  A layer without children is its own leaf. -/
inductive LeafAt : Layer → List Nat → Layer → Prop
  | self {l : Layer} (h : l.children = none) : LeafAt l [] l
  | inside {l child leaf : Layer} {children : List Layer} {i : Nat} {position : List Nat}
    (h : l.children = some children) (hi : children[i]? = some child)
    (hleaf : LeafAt child position leaf) : LeafAt l (i :: position) leaf

/-- There is a leaf at a position inside several layers, which are numbered from `start` on. -/
def LeafAmong (start : Nat) (ls : List Layer) (position : List Nat) (leaf : Layer) : Prop :=
  ∃ i l below, position = (start + i) :: below ∧ ls[i]? = some l ∧ l.LeafAt below leaf

/-- The list holds the leaf of every position that has one, in the order of the positions. -/
def Enumerates (leafAt : List Nat → Layer → Prop) (leaves : List Layer) : Prop :=
  ∃ positions : List (List Nat), positions.Pairwise (· < ·) ∧
    (∀ position, position ∈ positions ↔ ∃ leaf, leafAt position leaf) ∧
    List.Forall₂ leafAt positions leaves

/-- The leaves of a group are those of its children. -/
theorem leafAt_group {l leaf : Layer} {children : List Layer} {position : List Nat}
    (h : l.children = some children) :
    l.LeafAt position leaf ↔ LeafAmong 0 children position leaf := by
  constructor
  · intro hleaf
    cases hleaf with
    | self hnone => simp [h] at hnone
    | inside h' hi hleaf =>
      rw [h, Option.some.injEq] at h'
      subst h'
      exact ⟨_, _, _, by rw [Nat.zero_add], hi, hleaf⟩
  · rintro ⟨i, child, below, rfl, hi, hleaf⟩
    rw [Nat.zero_add]
    exact .inside h hi hleaf

/-- A leaf of several layers is one of the first of them or one of the others. -/
theorem leafAmong_cons {start : Nat} {l leaf : Layer} {ls : List Layer} {position : List Nat} :
    LeafAmong start (l :: ls) position leaf ↔
      (∃ below, position = start :: below ∧ l.LeafAt below leaf) ∨
        LeafAmong (start + 1) ls position leaf := by
  constructor
  · rintro ⟨i, l', below, rfl, hi, hleaf⟩
    cases i with
    | zero =>
      cases hi
      exact .inl ⟨below, rfl, hleaf⟩
    | succ i => exact .inr ⟨i, l', below, by rw [Nat.add_right_comm, Nat.add_assoc], hi, hleaf⟩
  · rintro (⟨below, rfl, hleaf⟩ | ⟨i, l', below, rfl, hi, hleaf⟩)
    · exact ⟨0, l, below, rfl, rfl, hleaf⟩
    · exact ⟨i + 1, l', below, by rw [Nat.add_right_comm, Nat.add_assoc], hi, hleaf⟩

/-- The leaves of the first layer come before those of the others. -/
private theorem enumerates_cons {l : Layer} {ls first others : List Layer} {start : Nat}
    (hfirst : Enumerates l.LeafAt first) (hothers : Enumerates (LeafAmong (start + 1) ls) others) :
    Enumerates (LeafAmong start (l :: ls)) (first ++ others) := by
  obtain ⟨positions, hsorted, hmem, hat⟩ := hfirst
  obtain ⟨positions', hsorted', hmem', hat'⟩ := hothers
  refine ⟨positions.map (start :: ·) ++ positions', ?_, ?_, ?_⟩
  · rw [List.pairwise_append, List.pairwise_map]
    refine ⟨hsorted.imp fun hlt => .cons hlt, hsorted', ?_⟩
    -- The first number of a position tells the first layer from the others.
    intro a ha b hb
    obtain ⟨below, _, rfl⟩ := List.mem_map.mp ha
    obtain ⟨leaf, i, l', below', rfl, _⟩ := (hmem' b).mp hb
    exact .rel (by omega)
  · intro position
    simp only [List.mem_append, List.mem_map, hmem, hmem', leafAmong_cons, exists_or]
    refine or_congr_left ⟨?_, ?_⟩
    · rintro ⟨below, ⟨leaf, hleaf⟩, rfl⟩
      exact ⟨leaf, below, rfl, hleaf⟩
    · rintro ⟨leaf, below, rfl, hleaf⟩
      exact ⟨below, ⟨leaf, hleaf⟩, rfl⟩
  · apply List.rel_append
    · rw [List.forall₂_map_left_iff]
      exact hat.imp fun below leaf hleaf => leafAmong_cons.mpr (.inl ⟨below, rfl, hleaf⟩)
    · exact hat'.imp fun position leaf hleaf => leafAmong_cons.mpr (.inr hleaf)

/-- The leaves of several layers are listed from left to right. -/
theorem enumerates_leavesAll (ls : List Layer) :
    ∀ start, Enumerates (LeafAmong start ls) (leavesAll ls) := by
  refine (Layer.leaves.mutual_induct (fun l => Enumerates l.LeafAt l.leaves)
    (fun ls => ∀ start, Enumerates (LeafAmong start ls) (leavesAll ls)) ?_ ?_ ?_ ?_).2 ls
  · intro id descriptor sources targets children ih
    -- A group is no leaf itself: its leaves are those of its children.
    have hgroup : LeafAt ⟨id, descriptor, sources, targets, some children⟩ =
        LeafAmong 0 children := by
      funext position leaf
      exact propext (leafAt_group rfl)
    rw [leaves, hgroup]
    exact ih 0
  · intro id descriptor sources targets
    rw [leaves]
    -- Anything else is a leaf, at the empty position.
    refine ⟨[[]], List.pairwise_singleton _ _, ?_, .cons (.self rfl) .nil⟩
    intro position
    rw [List.mem_singleton]
    constructor
    · rintro rfl
      exact ⟨_, .self rfl⟩
    · rintro ⟨leaf, hleaf⟩
      cases hleaf with
      | self _ => rfl
      | inside h _ _ => cases h
  · intro start
    refine ⟨[], .nil, ?_, .nil⟩
    simp [LeafAmong]
  · intro l ls ihl ihls start
    rw [leavesAll]
    exact enumerates_cons ihl (ihls (start + 1))

/-! ## What leaves describe -/

/-- The description says of a node what the layer says of itself. -/
structure Describes (l : Layer) (d : Description) : Prop where
  id : d.id = l.id
  descriptor : l.descriptor = some ⟨d.kind, d.parameters⟩
  sources : d.sources = l.sources
  targets : d.targets = some l.targets

/-- A leaf is described if it says what it is. -/
private theorem description_eq_ok_iff (l : Layer) (d : Description) :
    l.description = .ok d ↔ l.Describes d := by
  unfold description
  cases hl : l.descriptor with
  | none => exact ⟨nofun, fun h => by simpa [hl] using h.descriptor⟩
  | some descriptor =>
    simp only [Except.ok.injEq]
    constructor
    · rintro rfl
      exact ⟨rfl, hl, rfl, rfl⟩
    · rintro ⟨hid, hdescriptor, hsources, htargets⟩
      rw [hl, Option.some.injEq] at hdescriptor
      rw [hdescriptor, ← hid, ← hsources, ← htargets]

/-- A leaf that does not say what it is stops everything. -/
private theorem description_eq_error_iff (l : Layer) (e : CompileError) :
    l.description = .error e ↔
      l.descriptor = none ∧ e = .malformedGraph l.id .missingDescriptor := by
  unfold description
  cases l.descriptor with
  | none => simp [eq_comm]
  | some descriptor => simp

/-- A layer describes a node if it has a descriptor. -/
theorem exists_description_iff (l : Layer) :
    (∃ d, l.description = .ok d) ↔ l.descriptor ≠ none := by
  unfold description
  cases l.descriptor with
  | none => simp
  | some descriptor => simp

/-- Several layers describe what their leaves describe, and fail where the first leaf fails. -/
theorem descriptionsAll_result (ls : List Layer) :
    (descriptionsAll ls).result = (leavesAll ls).mapM description := by
  refine (Layer.leaves.mutual_induct (fun l => l.descriptions.result = l.leaves.mapM description)
    (fun ls => (descriptionsAll ls).result = (leavesAll ls).mapM description) ?_ ?_ ?_ ?_).2 ls
  · -- A group gives the descriptions of its children, and reports that it is one.
    intro id descriptor sources targets children ih
    rw [descriptions, leaves, Traced.result_bind]
    exact ih
  · intro id descriptor sources targets
    rw [descriptions, leaves, List.mapM_cons, Traced.result_bind]
    rfl
  · rfl
  · intro l ls ihl ihls
    rw [descriptionsAll, leavesAll, List.mapM_append, ← ihl, ← ihls]
    simp only [Traced.result_bind, Traced.result_pure]
    rfl

end Layer

namespace Request

/-- The leaves of a request, from left to right. -/
def leaves (r : Request) : List Layer := Layer.leavesAll r.layers

/-- The graph of a request is built of the descriptions of its leaves. -/
private theorem ofRequest_result (r : Request) :
    (Graph.ofRequest r).result =
      r.leaves.mapM Layer.description >>= fun ds => (Graph.build ds r.inputs r.outputs).result := by
  rw [Graph.ofRequest, Traced.result_bind, descriptions, Layer.descriptionsAll_result]
  rfl

/-- Compiling a request is compiling its graph. -/
theorem compile_result (r : Request) (o : Options) :
    (r.compile o).result = (Graph.ofRequest r).result >>= fun g => (g.compile o).result := by
  simp only [compile, Traced.result_bind, Traced.result_report]
  rfl

/-- A request describes its leaves from left to right, or fails because of the first of them that
    has no descriptor.  So the graph and the program of a request depend on its leaves and on the
    order of its inputs and outputs alone. -/
theorem descriptions_of_leaves :
    (∀ r : Request,
      Layer.Enumerates (Layer.LeafAmong 0 r.layers) r.leaves ∧
      (∀ ds, r.descriptions.result = .ok ds ↔ List.Forall₂ Layer.Describes r.leaves ds) ∧
      ∀ e, r.descriptions.result = .error e ↔ ∃ before leaf after,
        r.leaves = before ++ leaf :: after ∧ (∀ l ∈ before, l.descriptor ≠ none) ∧
          leaf.descriptor = none ∧ e = .malformedGraph leaf.id .missingDescriptor) ∧
    ∀ r r' : Request, r.inputs = r'.inputs → r.outputs = r'.outputs → r.leaves = r'.leaves →
      (Graph.ofRequest r).result = (Graph.ofRequest r').result ∧
      ∀ o, (r.compile o).result = (r'.compile o).result := by
  refine ⟨fun r => ⟨Layer.enumerates_leavesAll r.layers 0, ?_, ?_⟩, ?_⟩
  · intro ds
    rw [descriptions, Layer.descriptionsAll_result, Except.mapM_eq_ok_iff_forall₂]
    simp only [Layer.description_eq_ok_iff]
    rfl
  · intro e
    rw [descriptions, Layer.descriptionsAll_result, Except.mapM_eq_error_iff]
    simp only [Layer.description_eq_error_iff, Layer.exists_description_iff]
    rfl
  · intro r r' hinputs houtputs hleaves
    -- The graph depends on the leaves and the endpoints, and the program on the graph.
    have hgraph : (Graph.ofRequest r).result = (Graph.ofRequest r').result := by
      rw [ofRequest_result, ofRequest_result, hinputs, houtputs, hleaves]
    refine ⟨hgraph, fun o => ?_⟩
    rw [compile_result, compile_result, hgraph]

/-- An input, a layer and an output, two of them in groups, with an empty group between them. -/
def grouped : Request where
  layers := [
    ⟨⟨"g"⟩, some ⟨"Output", ∅⟩, [⟨"y"⟩], [], some [
      ⟨⟨"a"⟩, some ⟨"Input", ∅⟩, [], [⟨"x"⟩], none⟩,
      ⟨⟨"a"⟩, none, [], [], some []⟩,
      ⟨⟨"k"⟩, none, [], [], some [⟨⟨"x"⟩, some ⟨"Dense", ∅⟩, [⟨"a"⟩], [], none⟩]⟩]⟩,
    ⟨⟨"y"⟩, some ⟨"Output", ∅⟩, [⟨"x"⟩], [], none⟩]
  inputs := none
  outputs := some [⟨"y"⟩]

/-- The same layers without groups. -/
def ungrouped : Request where
  layers := [
    ⟨⟨"a"⟩, some ⟨"Input", ∅⟩, [], [⟨"x"⟩], none⟩,
    ⟨⟨"x"⟩, some ⟨"Dense", ∅⟩, [⟨"a"⟩], [], none⟩,
    ⟨⟨"y"⟩, some ⟨"Output", ∅⟩, [⟨"x"⟩], [], none⟩]
  inputs := none
  outputs := some [⟨"y"⟩]

/-- A request with groups, one of them empty, and the same request without. -/
theorem descriptions_of_leaves_grouped :
    grouped.leaves = ungrouped.leaves ∧
      (∃ g, (Graph.ofRequest ungrouped).result = .ok g) ∧
      (Graph.ofRequest grouped).result = (Graph.ofRequest ungrouped).result ∧
      (grouped.compile).result = (ungrouped.compile).result := by
  obtain ⟨hgraph, hprogram⟩ := descriptions_of_leaves.2 grouped ungrouped rfl rfl rfl
  refine ⟨rfl, ?_, hgraph, hprogram {}⟩
  rw [Graph.ofRequest, Traced.result_bind]
  simp only [Graph.build_result]
  exact ⟨_, rfl⟩

end Request

end LayerGraph
