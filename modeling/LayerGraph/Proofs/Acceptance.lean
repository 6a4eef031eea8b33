import LayerGraph.Proofs.Redeclaration

/-! # Which descriptions are accepted, and what is said of the others

The rules for descriptions speak of what counts: the last description of every node.  Building
succeeds exactly if all of these follow the rules and the lists of inputs and outputs name nodes of
the right role.  Where several things are wrong, one of them is reported: the nodes come before the
lists, the nodes that were declared first come first, and each node has an order of rules.

`FirstFault` and `FirstError` say which fault that is, without saying how it is looked for.

## Key results

- `Declarations.fault?_ofList_eq_none_iff`, `Declarations.fault?_ofList_eq_some_iff`: the rules, and
  the first rule that a description breaks
- `Declarations.check_ofList_eq_error_iff`, `Graph.endpoints_ofList_eq_error_iff`: what is wrong
  with the nodes, and what is wrong with a list
- `Graph.build_outcome`: when building succeeds, and the error if it does not -/

namespace LayerGraph

/-! ## Rules -/

/-- Some description is about the node. -/
def Declared (ds : List Description) (id : NodeId) : Prop := id ∈ ds.map Description.id

/-- The description of the node that counts gives it the role. -/
def DeclaredAs (ds : List Description) (role : Role) (id : NodeId) : Prop :=
  ∃ d ∈ effective ds, d.id = id ∧ d.role = role

/-- The nodes that a description names: its sources and then its targets. -/
def Description.edges (d : Description) : List NodeId := d.sources ++ d.targets.getD []

/-- The rules for a description. -/
structure Acceptable (ds : List Description) (d : Description) : Prop where
  edgesDeclared : ∀ e ∈ d.edges, Declared ds e
  inputSources : d.role = .input → d.sources = []
  outputTargets : d.role = .output → d.targets.getD [] = []
  sourcesNoOutputs : ∀ s ∈ d.sources, ¬ DeclaredAs ds .output s

/-- The first rule that a description breaks.  The rules are in the order of the constructors, and
    each of these says that the rules before its own are kept. -/
inductive FirstFault (ds : List Description) (d : Description) : GraphFault → Prop
  | undeclaredEdge {e : NodeId} (h : d.edges.IsFirst (¬ Declared ds ·) e) :
    FirstFault ds d (.undeclaredEdge e)
  | inputWithSources (hedges : ∀ e ∈ d.edges, Declared ds e) (hrole : d.role = .input)
    (h : d.sources ≠ []) : FirstFault ds d .inputWithSources
  | outputWithTargets (hedges : ∀ e ∈ d.edges, Declared ds e) (hrole : d.role = .output)
    (h : d.targets.getD [] ≠ []) : FirstFault ds d .outputWithTargets
  | outputAsSource {s : NodeId} (hedges : ∀ e ∈ d.edges, Declared ds e)
    (hinput : d.role = .input → d.sources = [])
    (houtput : d.role = .output → d.targets.getD [] = [])
    (h : d.sources.IsFirst (DeclaredAs ds .output) s) : FirstFault ds d (.outputAsSource s)

/-- What is wrong with a node that was listed among those of a role. -/
inductive EndpointFault (ds : List Description) (role : Role) (id : NodeId) : GraphFault → Prop
  | undeclared (h : ¬ Declared ds id) : EndpointFault ds role id .undeclaredEndpoint
  | otherRole {d : Description} (hd : d ∈ effective ds) (hid : d.id = id) (h : d.role ≠ role) :
    EndpointFault ds role id (.endpointKind role d.kind)

/-- The error that is reported: that of the first node that breaks a rule, otherwise that of the
    first node that is wrongly listed as an input, and otherwise as an output. -/
inductive FirstError (ds : List Description) (inputs outputs : Option (List NodeId)) :
    CompileError → Prop
  | node {d : Description} {fault : GraphFault}
    (h : (effective ds).IsFirst (¬ Acceptable ds ·) d) (hfault : FirstFault ds d fault) :
    FirstError ds inputs outputs (.malformedGraph d.id fault)
  | input {id : NodeId} {fault : GraphFault} (hnodes : ∀ d ∈ effective ds, Acceptable ds d)
    (h : (inputs.getD []).IsFirst (¬ DeclaredAs ds .input ·) id)
    (hfault : EndpointFault ds .input id fault) :
    FirstError ds inputs outputs (.malformedGraph id fault)
  | output {id : NodeId} {fault : GraphFault} (hnodes : ∀ d ∈ effective ds, Acceptable ds d)
    (hinputs : ∀ i ∈ inputs.getD [], DeclaredAs ds .input i)
    (h : (outputs.getD []).IsFirst (¬ DeclaredAs ds .output ·) id)
    (hfault : EndpointFault ds .output id fault) :
    FirstError ds inputs outputs (.malformedGraph id fault)

/-- The last description of a node decides on its role. -/
private theorem declaredAs_iff {ds : List Description} {role : Role} {id : NodeId} :
    DeclaredAs ds role id ↔ ∃ d, lastDescription? ds id = some d ∧ d.role = role := by
  constructor
  · rintro ⟨d, hd, rfl, hrole⟩
    exact ⟨d, mem_effective.mp hd, hrole⟩
  · rintro ⟨d, hd, hrole⟩
    exact ⟨d, mem_effective_of_lastDescription? hd, id_of_lastDescription? hd, hrole⟩

/-! ## Nodes -/

namespace Declarations

variable {ds : List Description} {d : Description}

/-- The declared ids are those that are described. -/
private theorem mem_keys_ofList (ds : List Description) (id : NodeId) :
    id ∈ (ofList ds).keys ↔ Declared ds id := by
  rw [keys_ofList, List.mem_eraseDups, Declared]

/-- An id is found among the declarations if it is described. -/
private theorem contains_ofList (ds : List Description) (id : NodeId) :
    (ofList ds).contains id = true ↔ Declared ds id := by
  rw [OrderedMap.contains, ← OrderedMap.mem_keys_iff, mem_keys_ofList]

/-- An id is an output if its last description says so. -/
private theorem isOutput_ofList (ds : List Description) (id : NodeId) :
    (ofList ds).isOutput id = true ↔ DeclaredAs ds .output id := by
  rw [isOutput, get?_ofList, Option.any_eq_true, declaredAs_iff]
  simp only [decide_eq_true_eq]

/-- There is no fault if all rules are kept. -/
theorem fault?_ofList_eq_none_iff (ds : List Description) (d : Description) :
    (ofList ds).fault? d = none ↔ Acceptable ds d := by
  rw [fault?_eq_none_iff]
  simp only [mem_keys_ofList, ← Bool.not_eq_true, isOutput_ofList]
  constructor
  · rintro ⟨hedges, hinput, houtput, hsources⟩
    exact ⟨hedges, hinput, houtput, hsources⟩
  · intro h
    exact ⟨h.edgesDeclared, h.inputSources, h.outputTargets, h.sourcesNoOutputs⟩

/-- The first edge to an undeclared node is the fault of a description. -/
private theorem fault?_of_undeclared {e : NodeId} (h : d.edges.IsFirst (¬ Declared ds ·) e) :
    (ofList ds).fault? d = some (.undeclaredEdge e) := by
  have hfind : (d.edges.find? fun edge => !(ofList ds).contains edge) = some e := by
    refine (List.find?_eq_some_iff_isFirst fun edge => ?_).mpr h
    rw [Bool.not_eq_true', ← Bool.not_eq_true, contains_ofList]
  rw [Description.edges] at hfind
  rw [fault?, hfind]

/-- If the edges are fine, only the rules for roles matter. -/
theorem fault?_of_declared (h : ∀ e ∈ d.edges, Declared ds e) :
    (ofList ds).fault? d =
      if d.role = .input ∧ d.sources ≠ [] then some .inputWithSources
      else if d.role = .output ∧ d.targets.getD [] ≠ [] then some .outputWithTargets
      else (d.sources.find? (ofList ds).isOutput).map .outputAsSource := by
  have hfind : (d.edges.find? fun edge => !(ofList ds).contains edge) = none := by
    rw [List.find?_eq_none]
    intro e he
    simp [(contains_ofList ds e).mpr (h e he)]
  rw [Description.edges] at hfind
  rw [fault?, hfind]

/-- The fault that is found is the first one. -/
theorem fault?_ofList_eq_some_iff (ds : List Description) (d : Description) (fault : GraphFault) :
    (ofList ds).fault? d = some fault ↔ FirstFault ds d fault := by
  have hsource : ∀ s, d.sources.find? (ofList ds).isOutput = some s ↔
      d.sources.IsFirst (DeclaredAs ds .output) s :=
    fun s => List.find?_eq_some_iff_isFirst (isOutput_ofList ds)
  constructor
  · intro h
    -- The rules for roles are looked at only if all edges are declared.
    by_cases hedges : ∀ e ∈ d.edges, Declared ds e
    · -- The rules are tried in the order in which they are listed.
      rw [fault?_of_declared hedges] at h
      split at h
      · next hinput =>
        cases h
        exact .inputWithSources hedges hinput.1 hinput.2
      · next hinput =>
        split at h
        · next houtput =>
          cases h
          exact .outputWithTargets hedges houtput.1 houtput.2
        · next houtput =>
          obtain ⟨s, hs, rfl⟩ := Option.map_eq_some_iff.mp h
          rw [not_and, Decidable.not_not] at hinput houtput
          exact .outputAsSource hedges hinput houtput ((hsource s).mp hs)
    · -- Of the edges that are not declared, one is the first.
      obtain ⟨e, he⟩ := List.exists_isFirst (by simpa using hedges)
      rw [fault?_of_undeclared he] at h
      cases h
      exact .undeclaredEdge he
  · intro h
    cases h with
    | undeclaredEdge h => exact fault?_of_undeclared h
    | inputWithSources hedges hrole h => rw [fault?_of_declared hedges, if_pos ⟨hrole, h⟩]
    | outputWithTargets hedges hrole h =>
      rw [fault?_of_declared hedges, if_neg (by simp [hrole]), if_pos ⟨hrole, h⟩]
    | outputAsSource hedges hinput houtput h =>
      rw [fault?_of_declared hedges, if_neg (by simpa using hinput),
        if_neg (by simpa using houtput), (hsource _).mpr h]
      rfl

/-- The check passes if all effective descriptions are acceptable. -/
private theorem check_ofList_eq_ok_iff (ds : List Description) :
    (ofList ds).check = .ok () ↔ ∀ d ∈ effective ds, Acceptable ds d := by
  rw [check_eq_ok_iff]
  simp only [get?_ofList, fault?_ofList_eq_none_iff]
  constructor
  · intro h d hd
    exact h d.id d (mem_effective.mp hd)
  · intro h id d hd
    exact h d (mem_effective_of_lastDescription? hd)

/-- The check fails with the first fault among the declarations. -/
private theorem check_eq_error_iff (decls : Declarations) (error : CompileError) :
    decls.check = .error error ↔
      (decls.entries.findSome? fun e => (decls.fault? e.2).map (.malformedGraph e.1)) =
        some error := by
  unfold check
  split
  · next h => simp [h]
  · next h => simp [h]

/-- The nodes are refused because of the first one that breaks a rule. -/
theorem check_ofList_eq_error_iff (ds : List Description) (error : CompileError) :
    (ofList ds).check = .error error ↔
      ∃ d fault, (effective ds).IsFirst (¬ Acceptable ds ·) d ∧ FirstFault ds d fault ∧
        error = .malformedGraph d.id fault := by
  rw [check_eq_error_iff, entries_ofList, List.findSome?_map]
  simp only [Function.comp_def, ← fault?_ofList_eq_some_iff]
  exact List.findSome?_map_eq_some_iff (fault?_ofList_eq_none_iff ds)

end Declarations

/-! ## Inputs and outputs -/

namespace Graph

/-- Nothing is wrong with an endpoint that is declared in the role. -/
private theorem endpointFault?_ofList_eq_none_iff (ds : List Description) (role : Role)
    (id : NodeId) :
    endpointFault? (Declarations.ofList ds).nodes role id = none ↔ DeclaredAs ds role id := by
  rw [endpointFault?, Declarations.nodes, OrderedMap.get?_mapValues, Declarations.get?_ofList,
    declaredAs_iff]
  cases lastDescription? ds id with
  | none => simp
  | some d =>
    have hrole : ((Declarations.ofList ds).node id d).role = d.role := rfl
    simp [hrole]

/-- What is wrong with an endpoint that is not declared in the role. -/
private theorem endpointFault?_ofList_eq_some_iff (ds : List Description) (role : Role)
    (id : NodeId) (fault : GraphFault) :
    endpointFault? (Declarations.ofList ds).nodes role id = some fault ↔
      EndpointFault ds role id fault := by
  rw [endpointFault?, Declarations.nodes, OrderedMap.get?_mapValues, Declarations.get?_ofList]
  cases hd : lastDescription? ds id with
  | none =>
    have hundeclared : ¬ Declared ds id := by
      rw [Declared, ← exists_lastDescription?_iff, hd]
      simp
    constructor
    · intro h
      cases h
      exact .undeclared hundeclared
    · intro h
      cases h with
      | undeclared _ => rfl
      | otherRole hmem hid _ =>
        -- There is no description of the node, so none counts.
        rw [mem_effective, hid, hd] at hmem
        cases hmem
  | some d =>
    -- A described node is refused for its role alone.
    show (if d.role = role then none else some (.endpointKind role d.kind)) = some fault ↔ _
    constructor
    · intro h
      split at h
      · cases h
      · next hne =>
        cases h
        exact .otherRole (mem_effective_of_lastDescription? hd) (id_of_lastDescription? hd) hne
    · intro h
      cases h with
      | undeclared hundeclared => exact absurd (exists_lastDescription?_iff.mp ⟨d, hd⟩) hundeclared
      | otherRole hmem hid hne =>
        -- The effective description is the last one, which is `d`.
        rw [mem_effective, hid, hd] at hmem
        cases hmem
        rw [if_neg hne]

/-- A list of endpoints is refused because of the first one that has a fault. -/
private theorem endpoints_eq_error_iff (nodes : OrderedMap NodeId Node) (role : Role)
    (listed : Option (List NodeId)) (error : CompileError) :
    endpoints nodes role listed = .error error ↔
      ((listed.getD []).findSome? fun id =>
        (endpointFault? nodes role id).map (.malformedGraph id)) = some error := by
  simp only [endpoints]
  split
  · next h => simp [h]
  · next h => simp [h]

/-- A list is refused because of the first node on it that does not have the role. -/
theorem endpoints_ofList_eq_error_iff (ds : List Description) (role : Role)
    (listed : Option (List NodeId)) (error : CompileError) :
    endpoints (Declarations.ofList ds).nodes role listed = .error error ↔
      ∃ id fault, (listed.getD []).IsFirst (¬ DeclaredAs ds role ·) id ∧
        EndpointFault ds role id fault ∧ error = .malformedGraph id fault := by
  rw [endpoints_eq_error_iff]
  simp only [← endpointFault?_ofList_eq_some_iff]
  exact List.findSome?_map_eq_some_iff (endpointFault?_ofList_eq_none_iff ds role)

/-- A list is accepted if all nodes on it have the role. -/
theorem exists_endpoints_ofList_iff (ds : List Description) (role : Role)
    (listed : Option (List NodeId)) :
    (∃ ids, endpoints (Declarations.ofList ds).nodes role listed = .ok ids) ↔
      ∀ id ∈ listed.getD [], DeclaredAs ds role id := by
  -- Of a graph only the nodes matter here.
  have hrole : ∀ id, hasRole ⟨(Declarations.ofList ds).nodes, [], []⟩ role id = true ↔
      DeclaredAs ds role id := fun id => by
    rw [← endpointFault?_eq_none_iff, endpointFault?_ofList_eq_none_iff]
  have hok := endpoints_eq_ok_iff ⟨(Declarations.ofList ds).nodes, [], []⟩ role listed
  simp only [hrole] at hok
  constructor
  · rintro ⟨ids, h⟩
    exact ((hok ids).mp h).1
  · intro h
    exact ⟨_, (hok _).mpr ⟨h, rfl⟩⟩

/-! ## Building -/

/-- Building succeeds exactly if every node keeps the rules and the lists of inputs and outputs name
    nodes of these roles.  Otherwise the error is that of the first node that breaks a rule, with
    the first rule that it breaks, and if there is none that of the first node that is wrongly
    listed, inputs before outputs. -/
theorem build_outcome (ds : List Description) (inputs outputs : Option (List NodeId)) :
    ((∃ g, (build ds inputs outputs).result = .ok g) ↔
      (∀ d ∈ effective ds, Acceptable ds d) ∧
      (∀ id ∈ inputs.getD [], DeclaredAs ds .input id) ∧
      ∀ id ∈ outputs.getD [], DeclaredAs ds .output id) ∧
    ∀ error, (build ds inputs outputs).result = .error error ↔
      FirstError ds inputs outputs error := by
  have hcheck := Declarations.check_ofList_eq_ok_iff ds
  have hins := exists_endpoints_ofList_iff ds .input inputs
  have houts := exists_endpoints_ofList_iff ds .output outputs
  rw [build_result]
  constructor
  · -- A graph is built if none of the three stages fails.
    rw [← hcheck, ← hins, ← houts]
    simp only [Except.bind_eq_ok_iff]
    constructor
    · rintro ⟨_, _, hc, ins, hi, outs, ho, _⟩
      exact ⟨hc, ⟨ins, hi⟩, ⟨outs, ho⟩⟩
    · rintro ⟨hc, ⟨ins, hi⟩, ⟨outs, ho⟩⟩
      exact ⟨_, (), hc, ins, hi, outs, ho, rfl⟩
  · intro error
    simp only [Except.bind_eq_error_iff]
    constructor
    · -- One of the three stages failed, and the ones before it succeeded.
      rintro (h | ⟨_, hc, h | ⟨ins, hi, h | ⟨_, _, h⟩⟩⟩)
      · obtain ⟨d, fault, hfirst, hfault, rfl⟩ :=
          (Declarations.check_ofList_eq_error_iff ds error).mp h
        exact .node hfirst hfault
      · obtain ⟨id, fault, hfirst, hfault, rfl⟩ :=
          (endpoints_ofList_eq_error_iff ds .input inputs error).mp h
        exact .input (hcheck.mp hc) hfirst hfault
      · obtain ⟨id, fault, hfirst, hfault, rfl⟩ :=
          (endpoints_ofList_eq_error_iff ds .output outputs error).mp h
        exact .output (hcheck.mp hc) (hins.mp ⟨ins, hi⟩) hfirst hfault
      · cases h
    · intro h
      -- The stages before the one that fails must be shown to succeed.
      cases h with
      | node hfirst hfault =>
        exact .inl ((Declarations.check_ofList_eq_error_iff ds _).mpr ⟨_, _, hfirst, hfault, rfl⟩)
      | input hnodes hfirst hfault =>
        have hfail := (endpoints_ofList_eq_error_iff ds .input inputs _).mpr
          ⟨_, _, hfirst, hfault, rfl⟩
        exact .inr ⟨(), hcheck.mpr hnodes, .inl hfail⟩
      | output hnodes hinputs hfirst hfault =>
        obtain ⟨ins, hi⟩ := hins.mpr hinputs
        have hfail := (endpoints_ofList_eq_error_iff ds .output outputs _).mpr
          ⟨_, _, hfirst, hfault, rfl⟩
        exact .inr ⟨(), hcheck.mpr hnodes, .inr ⟨ins, hi, .inl hfail⟩⟩

-- The layer `x` was described first, so what its last description does wrong comes before the
-- unknown source of `y`; of the two rules that it breaks, the one for inputs comes first.
example : (build [⟨⟨"x"⟩, "Dense", ∅, [], none⟩, ⟨⟨"y"⟩, "Output", ∅, [⟨"ghost"⟩], none⟩,
    ⟨⟨"x"⟩, "Input", ∅, [⟨"y"⟩], none⟩] (some [⟨"ghost"⟩]) none).result =
      .error (.malformedGraph ⟨"x"⟩ .inputWithSources) := rfl

end Graph

end LayerGraph
