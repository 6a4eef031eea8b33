import LayerGraph.Compile
import LayerGraph.Proofs.Build

/-! # Only the last description of a node counts

A node may be described any number of times.  It stands at the place of its first description and is
what its last description says.  The descriptions in between, and what the first one says, could
still show up in the checks, in the targets of other nodes or among the inputs and outputs.  They do
not: the declarations that a list of descriptions makes are those that its `effective` descriptions
make, and building looks at nothing else.

## Key results

- `mem_effective`, `map_id_effective`: which descriptions count, and in which order
- `Declarations.entries_ofList`: the declarations are the descriptions that count
- `Graph.build_of_ofList_eq`: building depends on the declarations alone
- `Graph.build_effective`: building from the descriptions that count -/

namespace LayerGraph

/-! ## The descriptions that count -/

/-- The descriptions that count: one for each node, at the place of its first description and with
    the content of its last one. -/
def effective (ds : List Description) : List Description :=
  (ds.map Description.id).eraseDups.filterMap (lastDescription? ds)

variable {ds : List Description} {d : Description} {id : NodeId}

/-- The last description of a node has its id. -/
theorem id_of_lastDescription? (h : lastDescription? ds id = some d) : d.id = id := by
  simpa using List.find?_some h

/-- There is a last description of every node that is described. -/
theorem exists_lastDescription?_iff :
    (∃ d, lastDescription? ds id = some d) ↔ id ∈ ds.map Description.id := by
  rw [← Option.isSome_iff_exists, lastDescription?, List.find?_isSome]
  simp

/-- There is one effective description for each node, in the order of the first descriptions. -/
theorem map_id_effective (ds : List Description) :
    (effective ds).map Description.id = (ds.map Description.id).eraseDups := by
  rw [effective, List.map_filterMap]
  calc _ = (ds.map Description.id).eraseDups.filterMap some := by
        apply List.filterMap_congr
        intro id hid
        obtain ⟨d, hd⟩ := exists_lastDescription?_iff.mpr (List.mem_eraseDups.mp hid)
        rw [hd, Option.map_some, id_of_lastDescription? hd]
    _ = _ := List.filterMap_some

/-- A description counts if it is the last one of its node. -/
theorem mem_effective : d ∈ effective ds ↔ lastDescription? ds d.id = some d := by
  rw [effective, List.mem_filterMap]
  constructor
  · rintro ⟨id, _, hd⟩
    rwa [id_of_lastDescription? hd]
  · intro hd
    exact ⟨d.id, List.mem_eraseDups.mpr (exists_lastDescription?_iff.mp ⟨d, hd⟩), hd⟩

/-- The last description of a node is effective. -/
theorem mem_effective_of_lastDescription? (h : lastDescription? ds id = some d) :
    d ∈ effective ds :=
  mem_effective.mpr (id_of_lastDescription? h ▸ h)

/-- The last description of a node does not change if one before it does. -/
theorem lastDescription?_superseded {before after : List Description} {d' : Description}
    (hid : d'.id = d.id) (hafter : d.id ∈ after.map Description.id) (id : NodeId) :
    lastDescription? (before ++ d :: after) id = lastDescription? (before ++ d' :: after) id := by
  simp only [lastDescription?, List.reverse_append, List.reverse_cons, List.find?_append]
  by_cases hd : d.id = id
  · -- The search from the end stops before it comes to `d` or `d'`.
    obtain ⟨last, hlast⟩ := exists_lastDescription?_iff.mpr (hd ▸ hafter)
    rw [lastDescription?] at hlast
    simp [hlast]
  · -- Neither of the two is a description of this node.
    simp [hd, hid]

/-- A description that another one supersedes has no effect. -/
private theorem effective_superseded {before after : List Description} {d' : Description}
    (hid : d'.id = d.id) (hafter : d.id ∈ after.map Description.id) :
    effective (before ++ d :: after) = effective (before ++ d' :: after) := by
  have hids : (before ++ d :: after).map Description.id =
      (before ++ d' :: after).map Description.id := by
    simp [hid]
  rw [effective, effective, hids]
  congr 1
  funext id
  exact lastDescription?_superseded hid hafter id

/-! ## The declarations they make -/

namespace Declarations

/-- What is declared are the descriptions that count. -/
theorem entries_ofList (ds : List Description) :
    (ofList ds).entries = (effective ds).map fun d => (d.id, d) := by
  -- An entry is its key with the last description of that key, and the keys are in order.
  calc (ofList ds).entries = (ofList ds).entries.filterMap some := List.filterMap_some.symm
    _ = (ofList ds).entries.filterMap fun e =>
          (lastDescription? ds e.1).map fun d => (d.id, d) := by
        apply List.filterMap_congr
        intro e he
        have hlast : lastDescription? ds e.1 = some e.2 := by
          rw [← get?_ofList, OrderedMap.get?_eq_some_iff]
          exact he
        rw [hlast, Option.map_some, id_of_lastDescription? hlast]
    _ = (ofList ds).keys.filterMap fun id => (lastDescription? ds id).map fun d => (d.id, d) := by
        rw [OrderedMap.keys, List.filterMap_map]
        rfl
    _ = (effective ds).map fun d => (d.id, d) := by
        rw [keys_ofList, effective, List.map_filterMap]

/-- The effective descriptions make the same declarations as all of them. -/
private theorem ofList_effective (ds : List Description) : ofList (effective ds) = ofList ds := by
  rw [ofList, ← entries_ofList, OrderedMap.ofList_entries]

/-- If no node is described twice, there is nothing to report. -/
theorem repeated_eq_nil {seen : List NodeId} (hnodup : (ds.map Description.id).Nodup)
    (hseen : ∀ d ∈ ds, d.id ∉ seen) : repeated seen ds = [] := by
  induction ds generalizing seen with
  | nil => rfl
  | cons d ds ih =>
    rw [List.map_cons, List.nodup_cons] at hnodup
    rw [List.forall_mem_cons] at hseen
    rw [repeated, if_neg hseen.1]
    apply ih hnodup.2
    -- A later description is about neither this node nor one that was seen before.
    intro d' hd' hmem
    rcases List.mem_cons.mp hmem with heq | hmem
    · exact hnodup.1 (heq ▸ List.mem_map_of_mem hd')
    · exact hseen.2 d' hd' hmem

end Declarations

/-! ## The graphs that are built from them -/

namespace Graph

/-- Two lists of descriptions that make the same declarations give the same result.  They also give
    the same reports, once the repeated descriptions have been reported. -/
theorem build_of_ofList_eq {ds ds' : List Description}
    (h : Declarations.ofList ds = Declarations.ofList ds') (inputs outputs : Option (List NodeId)) :
    (build ds inputs outputs).result = (build ds' inputs outputs).result ∧
    ∃ rest,
      (build ds inputs outputs).events = (Declarations.repeated [] ds).map .redeclared ++ rest ∧
      (build ds' inputs outputs).events =
        (Declarations.repeated [] ds').map .redeclared ++ rest := by
  refine ⟨by rw [build_result, build_result, h], ?_⟩
  -- After the first report, building goes on with the declarations only.
  unfold build
  rw [h]
  exact ⟨_, rfl, rfl⟩

/-- Building from the descriptions that count gives the same graph, or the same error, as building
    from all of them, and compiling what was built has the same outcome; only the reports about
    repeated descriptions are missing.  What a description says does not matter at all if a later
    one is about the same node. -/
theorem build_effective :
    (∀ ds inputs outputs,
      (build (effective ds) inputs outputs).result = (build ds inputs outputs).result ∧
      (build ds inputs outputs).events =
        (Declarations.repeated [] ds).map .redeclared ++
          (build (effective ds) inputs outputs).events ∧
      ∀ o, (build (effective ds) inputs outputs >>= fun g => g.compile o).result =
        (build ds inputs outputs >>= fun g => g.compile o).result) ∧
    ∀ before d d' after, d'.id = d.id → d.id ∈ after.map Description.id → ∀ inputs outputs,
      (build (before ++ d :: after) inputs outputs).result =
        (build (before ++ d' :: after) inputs outputs).result := by
  have hresult := fun ds => build_of_ofList_eq (Declarations.ofList_effective ds)
  constructor
  · intro ds inputs outputs
    obtain ⟨hbuild, rest, hevents, hevents'⟩ := hresult ds inputs outputs
    -- No id is described twice any more, so no redeclaration is reported.
    have hnone : Declarations.repeated [] (effective ds) = [] := by
      apply Declarations.repeated_eq_nil
      · rw [map_id_effective]
        exact List.nodup_eraseDups _
      · simp
    refine ⟨hbuild, ?_, fun o => ?_⟩
    · rw [hevents', hevents, hnone, List.map_nil, List.nil_append]
    · rw [Traced.result_bind, Traced.result_bind, hbuild]
  · -- Both lists have the same effective descriptions.
    intro before d d' after hid hafter inputs outputs
    calc _ = (build (effective (before ++ d :: after)) inputs outputs).result :=
          (hresult _ inputs outputs).1.symm
      _ = (build (effective (before ++ d' :: after)) inputs outputs).result := by
          rw [effective_superseded hid hafter]
      _ = _ := (hresult _ inputs outputs).1

/-- The first description of the layer might as well make it an output with parameters that takes
    the result of an unknown node. -/
theorem build_effective_loop :
    effective loopDescriptions =
      [⟨⟨"x"⟩, "Add", ∅, [⟨"a"⟩, ⟨"x"⟩, ⟨"a"⟩], none⟩, ⟨⟨"a"⟩, "Input", ∅, [], some [⟨"y"⟩]⟩,
        ⟨⟨"y"⟩, "Output", ∅, [⟨"x"⟩], some []⟩] ∧
    ∃ g, (build loopDescriptions none none).result = .ok g ∧
      (build (effective loopDescriptions) none none).result = .ok g ∧
      (build (⟨⟨"x"⟩, "Output", OrderedMap.ofList [("units", .null)], [⟨"ghost"⟩], some [⟨"x"⟩]⟩ ::
        loopDescriptions.tail) none none).result = .ok g := by
  obtain ⟨g, hg⟩ : ∃ g, (build loopDescriptions none none).result = .ok g := by
    rw [build_result]
    exact ⟨_, rfl⟩
  refine ⟨rfl, g, hg, ?_, ?_⟩
  · rw [(build_effective.1 loopDescriptions none none).1, hg]
  · rw [← hg]
    exact (build_effective.2 [] _ _ loopDescriptions.tail rfl (by decide) none none).symm

end Graph

end LayerGraph
