import LayerGraph.Program.OfGraph
import LayerGraph.Proofs.Generate
import LayerGraph.Proofs.Literal

/-! # The generators write these programs

Each target has generators of its own, one for functional and one for sequential programs.  All four
go through a list of nodes and add a line to the code for each of them.  A loop that does so writes
all the lines, unless one of the nodes has a fault (`Except.foldlM_lines`).  What is left to show of
a generator is what it adds for one node, and what it puts before and behind the lines.

That the targets agree is not built into the generators: it follows from the fact that both of them
do what `modelFault?` and `modelOf`, or `stackFault?` and `stackOf`, say.

## Key results

- `Keras.functional_result`, `TensorFlowJs.functional_result`: the functional programs of a graph
- `Keras.sequential_result`, `TensorFlowJs.sequential_result`: the sequential programs of a chain
- `Graph.functional_result`, `Graph.sequential_result`: the same for any target -/

namespace LayerGraph

/-! ## Loops that add lines -/

/-- A loop that adds some lines for each element writes all of them, unless there is a fault. -/
theorem Except.foldlM_lines {ε α : Type} {add : String → α → Except ε String}
    {fault : α → Option ε} {lines : α → List String}
    (hadd : ∀ code a, add code a = Except.unlessFault (fault a) (code ++ Text.ofLines (lines a)))
    (l : List α) (code : String) :
    l.foldlM add code =
      Except.unlessFault (l.findSome? fault) (code ++ Text.ofLines (l.flatMap lines)) := by
  induction l generalizing code with
  | nil => rw [List.flatMap_nil, Text.ofLines_nil, String.append_empty]; rfl
  | cons a l ih =>
    rw [List.foldlM_cons, hadd, List.findSome?_cons, List.flatMap_cons, Text.ofLines_append,
      ← String.append_assoc]
    -- The loop stops at the first element with a fault.
    cases fault a with
    | some e => rfl
    | none => exact ih _

/-- The result of a loop is that of the loop which reports nothing. -/
theorem Traced.result_foldlM {α β : Type} (f : β → α → Traced β) (l : List α) (b : β) :
    (l.foldlM f b).result = l.foldlM (fun b a => (f b a).result) b := by
  induction l generalizing b with
  | nil => rfl
  | cons a l ih => rw [List.foldlM_cons, List.foldlM_cons, Traced.result_bind]; simp only [ih]

/-- A statement with its indentation is a line. -/
theorem Program.line_eq_ofLines (statement : String) :
    line statement = Text.ofLines ["    " ++ statement] := by
  rw [line, Text.ofLines_cons, Text.ofLines_nil, String.append_empty]

/-- An import, an empty line and the head of a function are three lines. -/
private theorem Program.header_eq_ofLines (imports keyword name opening : String) :
    imports ++ "\n\n" ++ keyword ++ name ++ (opening ++ "\n") =
      Text.ofLines [imports, "", keyword ++ name ++ opening] := by
  simp [Text.ofLines_cons, ← String.toList_inj]

/-- Endpoints are written as a single name or as a list of names. -/
private theorem Program.endpoints_eq_namesText (names : List String) :
    endpoints names = Text.namesText names := by
  fun_cases endpoints names with
  | case1 name => rfl
  | case2 names h =>
    rw [Text.join_eq_intercalate]
    cases names with
    | nil => rfl
    | cons name rest =>
      cases rest with
      | nil => exact absurd rfl (h name)
      | cons name' rest => rfl

/-- A parameter that is added because it is not there yet comes behind the others. -/
theorem OrderedMap.entries_insert_unless_contains {κ α : Type} [DecidableEq κ]
    (m : OrderedMap κ α) (k : κ) (v : α) :
    (if m.contains k then m else m.insert k v).entries =
      m.entries ++ if m.contains k then [] else [(k, v)] := by
  cases h : m.contains k with
  | true => simp
  | false =>
    refine put_eq_append (fun hmem => ?_) v
    have hsome : (m.get? k).isSome := (m.mem_keys_iff k).mp hmem
    rw [contains, hsome] at h
    cases h

namespace Graph

variable {g : Graph}

/-- The lines of the nodes that are not outputs. -/
theorem flatMap_lines_modelOf (g : Graph) (text : Binding → String) (order : List NodeId) :
    (order.flatMap fun id => if g.isOutput id then [] else ["    " ++ text (g.bindingOf id)]) =
      ((g.modelOf order).bindings.map text).map ("    " ++ ·) := by
  induction order with
  | nil => rfl
  | cons id order ih =>
    rw [List.flatMap_cons, ih, modelOf, modelOf]
    cases hout : g.isOutput id with
    | true => simp [hout]
    | false => simp [hout]

/-- A generator that adds the statements of nodes as lines adds none for an output, whose statement
    is empty. -/
theorem addLine_result {statement : NodeId → Except CompileError String} {text : Binding → String}
    (hstatement : ∀ id, statement id = .unlessFault (g.undeclared? id)
      (if g.isOutput id then "" else text (g.bindingOf id)))
    (htext : ∀ b, (text b).isEmpty = false) (code : String) (id : NodeId) :
    (do
      let statement ← statement id
      if statement.isEmpty then return code
      else
        Traced.report [.statementWritten statement]
        return code ++ Program.line statement : Traced String).result =
      .unlessFault (g.undeclared? id) (code ++ Text.ofLines
        (if g.isOutput id then [] else ["    " ++ text (g.bindingOf id)])) := by
  rw [Traced.result_bind, Traced.result_liftM, hstatement]
  cases g.undeclared? id with
  | some e => rfl
  | none =>
    rw [Except.unlessFault, Except.ok_bind]
    cases g.isOutput id with
    | true => exact congrArg Except.ok String.append_empty.symm
    | false =>
      rw [if_neg Bool.false_ne_true, if_neg Bool.false_ne_true, htext,
        if_neg Bool.false_ne_true, ← Program.line_eq_ofLines]
      rfl

/-- What goes wrong with the nodes of a list goes wrong with the nodes and their indices. -/
theorem findSome?_zipIdx (ids : List NodeId) :
    (ids.zipIdx.findSome? fun layer => g.undeclared? layer.1) = ids.findSome? g.undeclared? := by
  conv => rhs; rw [← List.zipIdx_map_fst 0 ids, List.findSome?_map]
  rfl

/-- The lines of the layers of a chain, of which the first one is special. -/
theorem flatMap_lines_stackOf (g : Graph) (c : Chain)
    (text : String → List (String × Value) → String) :
    (c.layers.zipIdx.flatMap fun layer => ["    " ++ text (g.kindOf layer.1)
      (if layer.2 = 0 then g.firstEntries c layer.1 else (g.parametersOf layer.1).entries)]) =
      ((g.stackOf c).map fun l => text l.1 l.2).map ("    " ++ ·) := by
  rw [stackOf]
  cases c.layers with
  | nil => rfl
  | cons first rest =>
    -- Only the first layer has the index zero, so all others keep their parameters.
    have hrest : ∀ layer ∈ rest.zipIdx 1, ["    " ++ text (g.kindOf layer.1)
        (if layer.2 = 0 then g.firstEntries c layer.1 else (g.parametersOf layer.1).entries)] =
        ["    " ++ text (g.kindOf layer.1) (g.parametersOf layer.1).entries] := by
      intro layer hlayer
      have hindex : layer.2 ≠ 0 := by
        have := List.le_snd_of_mem_zipIdx hlayer
        omega
      rw [if_neg hindex]
    rw [List.zipIdx_cons, List.flatMap_cons, List.flatMap_congr hrest, ← List.map_eq_flatMap]
    dsimp only
    rw [List.map_cons, List.map_cons, List.map_map, List.map_map]
    conv => rhs; rw [← List.zipIdx_map_fst 1 rest, List.map_map]
    rfl

/-- The shape of the input of a chain can be looked up if the input is declared. -/
theorem inputShape_eq_unlessFault (g : Graph) (c : Chain) :
    c.inputShape g = .unlessFault (g.undeclared? c.input) (g.shapeOf c) := by
  rw [Chain.inputShape]
  by_cases hid : c.input ∈ g.ids
  · obtain ⟨n, hn⟩ := (g.mem_ids_iff _).mp hid
    rw [node_of_get? hn, undeclared?_of_mem hid, shapeOf, parametersOf_of_get? hn]
    rfl
  · rw [node_of_not_mem hid, undeclared?_of_not_mem hid]
    rfl

end Graph

/-! ## Keras -/

namespace Keras

variable {g : Graph}

/-- The arguments of a layer are its parameters, with commas between them. -/
private theorem arguments_eq_intercalate (params : Parameters) :
    arguments params = ",".intercalate (params.entries.map argumentText) := by
  have hargument : (fun e : String × Value => argument e.1 e.2) = argumentText := by
    funext e
    rw [argument, LiteralStyle.literal_eq_text, argumentText]
  rw [arguments, Text.join_eq_intercalate, hargument]

/-- A layer is applied to the names of its sources. -/
private theorem application_eq_ok {ids : List NodeId} (h : ∀ id ∈ ids, id ∈ g.ids) :
    application g ids = .ok (sourcesText (ids.map g.nameOf)) := by
  rw [application, Graph.mapM_bindingName h, Except.ok_bind]
  match ids.map g.nameOf with
  | [] => rfl
  | [name] => rfl
  | name :: name' :: rest =>
    show Except.ok ("([" ++ Text.join "," (name :: name' :: rest) ++ "])") = _
    rw [Text.join_eq_intercalate]
    rfl

/-- No statement of a layer is empty, so none is left out. -/
private theorem bindingText_isEmpty (b : Binding) : (bindingText b).isEmpty = false := by
  rw [String.isEmpty_eq_false_iff, ne_eq, bindingText, String.append_eq_empty_iff,
    String.append_eq_empty_iff, String.append_eq_empty_iff]
  exact fun h => absurd h.1.1.2 (by decide)

/-- The statement of a declared node, with what is known of the node. -/
private theorem bindingText_bindingOf {id : NodeId} {n : Node} (hn : g.get? id = some n) :
    bindingText (g.bindingOf id) = g.nameOf id ++ " = keras.layers." ++ n.kind ++ "("
      ++ arguments n.parameters ++ ")" ++ sourcesText (n.sources.map g.nameOf) := by
  have hliteral : " = keras.layers." = " = " ++ "keras.layers." := rfl
  rw [arguments_eq_intercalate, hliteral]
  unfold bindingText layerText
  simp only [Graph.bindingOf, Graph.kindOf_of_get? hn, Graph.parametersOf_of_get? hn,
    Graph.sourcesOf_of_get? hn, String.append_assoc]

/-- Every declared node has a statement, which is empty for an output. -/
theorem statement_eq_unlessFault (hg : g.WellFormed) (id : NodeId) :
    statement g id = .unlessFault (g.undeclared? id)
      (if g.isOutput id then "" else bindingText (g.bindingOf id)) := by
  rw [statement]
  by_cases hid : id ∈ g.ids
  · obtain ⟨n, hn⟩ := (g.mem_ids_iff id).mp hid
    -- The sources of a node are declared as well, so their names are found.
    have hsources : ∀ s ∈ n.sources, s ∈ g.ids := fun s hs =>
      hg.sourcesDeclared id s (Graph.sourcesOf_of_get? hn ▸ hs)
    rw [Graph.node_of_get? hn, Graph.undeclared?_of_mem hid, Except.ok_bind,
      Graph.isOutput_of_get? hn, (Graph.bindingName_eq_ok_iff id _).mpr ⟨hid, rfl⟩,
      application_eq_ok hsources, bindingText_bindingOf hn]
    split
    · rfl
    · rfl
  · rw [Graph.node_of_not_mem hid, Graph.undeclared?_of_not_mem hid]
    rfl

/-- For each node its line is added, and none for an output. -/
private theorem addStatement_result (hg : g.WellFormed) (code : String) (id : NodeId) :
    (addStatement g code id).result = .unlessFault (g.undeclared? id) (code ++ Text.ofLines
      (if g.isOutput id then [] else ["    " ++ bindingText (g.bindingOf id)])) :=
  Graph.addLine_result (statement_eq_unlessFault hg) bindingText_isEmpty code id

/-- The statement of the model exists unless something is wrong with the endpoints. -/
private theorem modelStatement_eq_unlessFault (hg : g.WellFormed) (order : List NodeId) :
    modelStatement g order =
      .unlessFault ((if g.inputs = [] then some .noInput else none).or (g.outputsFault? order))
        (modelText (g.modelOf order).inputs (g.modelOf order).outputs) := by
  -- Equation lemmas are slow to make for definitions with long literals, so we unfold these.
  unfold modelStatement
  rw [Graph.modelInputs_eq_unlessFault hg order, Graph.modelOutputs_eq_unlessFault hg]
  refine Except.unlessFault_bind _ _ _ _ ?_
  rw [Program.endpoints_eq_namesText]
  simp only [Program.endpoints_eq_namesText]
  exact Except.unlessFault_map _ _ (modelText (g.modelOf order).inputs)

/-- A program begins with the lines of its header. -/
private theorem prologue_eq_ofLines (o : Options) : prologue o = Text.ofLines (headerLines o) := by
  have hopening : "():\n" = "():" ++ "\n" := rfl
  rw [prologue, hopening, Program.header_eq_ofLines, headerLines]
  cases o.kerasImport with
  | standalone => rfl
  | tensorFlow => rfl

/-- The functional generator writes the model of the graph. -/
theorem functional_result (hg : g.WellFormed) (o : Options) (order : List NodeId) :
    (functional g o order).result =
      .unlessFault (g.modelFault? order) (Target.keras.programText o (g.modelOf order)) := by
  simp only [functional, Traced.result_bind, Traced.result_liftM, Traced.result_pure,
    Traced.result_foldlM, Except.foldlM_lines (addStatement_result hg),
    modelStatement_eq_unlessFault hg]
  -- The statements come first, then the inputs and the outputs: so do their faults.
  refine Except.unlessFault_bind _ _ _ _ ?_
  refine (Except.unlessFault_map _ _ fun model =>
    prologue o ++ _ ++ Program.line model ++ Program.line "return model").trans ?_
  -- Nothing is wrong, and the pieces make up the lines of the function.
  congr 1
  rw [Target.programText, Target.functionText, functionText, prologue_eq_ofLines,
    Graph.flatMap_lines_modelOf, Program.line_eq_ofLines, Program.line_eq_ofLines,
    ← Text.ofLines_append, ← Text.ofLines_append, ← Text.ofLines_append]
  simp only [List.map_append, List.append_assoc]
  rfl

/-! ### Sequential programs -/

/-- The statement that stacks a layer, in the pieces in which it is generated. -/
private theorem additionText_eq_append (kind : String) (params : Parameters) :
    additionText kind params.entries =
      "model.add(keras.layers." ++ kind ++ "(" ++ arguments params ++ "))" := by
  have hliteral : "model.add(keras.layers." = "model.add(" ++ "keras.layers." := rfl
  have hclosing : "))" = ")" ++ ")" := rfl
  rw [arguments_eq_intercalate, hliteral, hclosing]
  unfold additionText layerText
  simp only [String.append_assoc]

/-- The statement of a layer has its parameters, and the shape that it is given. -/
theorem layerStatement_eq_unlessFault (g : Graph) (id : NodeId) (inputShape : Option Value) :
    layerStatement g id inputShape =
      .unlessFault (g.undeclared? id) (additionText (g.kindOf id) ((g.parametersOf id).entries ++
        match inputShape with
        | some shape =>
          if (g.parametersOf id).contains "input_shape" then [] else [("input_shape", shape)]
        | none => [])) := by
  rw [layerStatement]
  by_cases hid : id ∈ g.ids
  · obtain ⟨n, hn⟩ := (g.mem_ids_iff _).mp hid
    rw [Graph.node_of_get? hn, Graph.undeclared?_of_mem hid, Graph.kindOf_of_get? hn,
      Graph.parametersOf_of_get? hn, Except.ok_bind]
    -- With a shape to add, the generator looks for a parameter of that name first.
    cases inputShape with
    | none =>
      rw [List.append_nil, additionText_eq_append]
      rfl
    | some shape =>
      dsimp only
      rw [← OrderedMap.entries_insert_unless_contains, additionText_eq_append]
      rfl
  · rw [Graph.node_of_not_mem hid, Graph.undeclared?_of_not_mem hid]
    rfl

/-- For each layer its line is added, and the first one may get a shape. -/
private theorem addLayer_result (g : Graph) (c : Chain) (code : String) (layer : NodeId × Nat) :
    (addLayer g (g.shapeOf c) code layer).result =
      .unlessFault (g.undeclared? layer.1) (code ++ Text.ofLines ["    " ++ additionText
        (g.kindOf layer.1)
        (if layer.2 = 0 then g.firstEntries c layer.1 else (g.parametersOf layer.1).entries)]) := by
  rw [addLayer, Traced.result_bind, Traced.result_liftM, layerStatement_eq_unlessFault,
    ← Program.line_eq_ofLines]
  refine (Except.unlessFault_map _ _ fun statement => code ++ Program.line statement).trans ?_
  by_cases hindex : layer.2 = 0
  · rw [if_pos hindex, if_pos hindex]
    rfl
  · rw [if_neg hindex, if_neg hindex, List.append_nil]

/-- The sequential generator writes the layers of the chain. -/
theorem sequential_result (g : Graph) (o : Options) (c : Chain) :
    (sequential g o c).result =
      .unlessFault (g.stackFault? c) (Target.keras.stackText o (g.stackOf c)) := by
  simp only [sequential, Traced.result_bind, Traced.result_liftM, Traced.result_pure,
    Traced.result_foldlM, Graph.inputShape_eq_unlessFault, Graph.stackFault?_eq_or]
  -- The input is looked up before the layers.
  refine Except.unlessFault_bind _ _ _ _ ?_
  rw [Except.foldlM_lines (addLayer_result g c), Graph.findSome?_zipIdx]
  refine (Except.unlessFault_map _ _ fun code => code ++ Program.line "return model").trans ?_
  congr 1
  -- The pieces make up the lines of the function.
  rw [Graph.flatMap_lines_stackOf, Target.stackText, Target.functionText, functionText,
    prologue_eq_ofLines, Program.line_eq_ofLines, Program.line_eq_ofLines,
    ← Text.ofLines_append, ← Text.ofLines_append, ← Text.ofLines_append]
  simp only [List.map_append, List.append_assoc]
  rfl

end Keras

/-! ## TensorFlow.js -/

namespace TensorFlowJs

variable {g : Graph}

/-- The object of a layer has one entry for each of its parameters, under its name in camel case. -/
theorem config_eq_objectText (params : Parameters) :
    config params = objectText (optionEntries params.entries) := by
  have hentry : (fun e : String × Value => configEntry e.1 e.2) =
      (fun e => e.1 ++ ": " ++ LiteralStyle.javascript.text e.2) ∘
        fun e => (camelCase e.1, e.2) := by
    funext e
    rw [configEntry, LiteralStyle.literal_eq_text]
    rfl
  rw [config, Text.join_eq_intercalate, hentry, objectText, optionEntries, List.map_map]

/-- A layer is applied to the names of its sources. -/
private theorem application_eq_ok {ids : List NodeId} (h : ∀ id ∈ ids, id ∈ g.ids) :
    application g ids = .ok (sourcesText (ids.map g.nameOf)) := by
  rw [application, Graph.mapM_bindingName h, Except.ok_bind]
  match ids.map g.nameOf with
  | [] => rfl
  | [name] => rfl
  | name :: name' :: rest =>
    show Except.ok (".apply([" ++ Text.join ", " (name :: name' :: rest) ++ "])") = _
    rw [Text.join_eq_intercalate]
    rfl

/-- No statement of a layer is empty, so none is left out. -/
private theorem bindingText_isEmpty (b : Binding) : (bindingText b).isEmpty = false := by
  rw [String.isEmpty_eq_false_iff, ne_eq]
  unfold bindingText
  rw [String.append_eq_empty_iff]
  exact fun h => absurd h.2 (by decide)

/-- Inputs and layers are made by different functions, and outputs by none. -/
theorem maker?_eq (n : Node) :
    maker? n = if n.isOutput then none else some (makerText n.kind) := by
  rw [maker?, Node.isOutput, Node.role, makerText, Role.ofKind]
  by_cases hinput : n.kind = "Input"
  · simp [hinput]
  · by_cases houtput : n.kind = "Output"
    · simp [houtput]
    · simp [hinput, houtput]

/-- Every declared node has a statement, which is empty for an output. -/
theorem statement_eq_unlessFault (hg : g.WellFormed) (id : NodeId) :
    statement g id = .unlessFault (g.undeclared? id)
      (if g.isOutput id then "" else bindingText (g.bindingOf id)) := by
  rw [statement]
  by_cases hid : id ∈ g.ids
  · obtain ⟨n, hn⟩ := (g.mem_ids_iff id).mp hid
    have hsources : ∀ s ∈ n.sources, s ∈ g.ids := fun s hs =>
      hg.sourcesDeclared id s (Graph.sourcesOf_of_get? hn ▸ hs)
    rw [Graph.node_of_get? hn, Graph.undeclared?_of_mem hid, Except.ok_bind,
      Graph.isOutput_of_get? hn, (Graph.bindingName_eq_ok_iff id _).mpr ⟨hid, rfl⟩,
      application_eq_ok hsources, maker?_eq, config_eq_objectText]
    cases n.isOutput with
    | true => rfl
    | false =>
      -- Here the names and parameters are those of the node at hand.
      unfold bindingText
      rw [Graph.bindingOf, Graph.kindOf_of_get? hn, Graph.parametersOf_of_get? hn,
        Graph.sourcesOf_of_get? hn]
      rfl
  · rw [Graph.node_of_not_mem hid, Graph.undeclared?_of_not_mem hid]
    rfl

/-- For each node its line is added, and none for an output. -/
private theorem addStatement_result (hg : g.WellFormed) (code : String) (id : NodeId) :
    (addStatement g code id).result = .unlessFault (g.undeclared? id) (code ++ Text.ofLines
      (if g.isOutput id then [] else ["    " ++ bindingText (g.bindingOf id)])) :=
  Graph.addLine_result (statement_eq_unlessFault hg) bindingText_isEmpty code id

/-- A program begins with the lines of its header. -/
private theorem prologue_eq_ofLines (o : Options) : prologue o = Text.ofLines (headerLines o) := by
  have hfunction : "\n\nfunction " = "\n\n" ++ "function " := rfl
  have hopening : "() \x7b\n" = "() \x7b" ++ "\n" := rfl
  unfold prologue headerLines
  rw [hfunction, ← String.append_assoc, hopening, Program.header_eq_ofLines]

/-- The functional generator writes the model of the graph. -/
theorem functional_result (hg : g.WellFormed) (o : Options) (order : List NodeId) :
    (functional g o order).result =
      .unlessFault (g.modelFault? order) (Target.tensorFlowJs.programText o (g.modelOf order)) := by
  simp only [functional, Traced.result_bind, Traced.result_liftM, Traced.result_pure,
    Traced.result_foldlM, Except.foldlM_lines (addStatement_result hg),
    Graph.modelInputs_eq_unlessFault hg order, Graph.modelOutputs_eq_unlessFault hg,
    Program.endpoints_eq_namesText]
  -- The statements come first, then the inputs, then the outputs: so do their faults.
  refine Except.unlessFault_bind _ _ _ _ (Except.unlessFault_bind _ _ _ _ ?_)
  refine (Except.unlessFault_map _ _ fun outputs =>
    prologue o ++ _ ++ Program.line (modelText (g.modelOf order).inputs outputs)
      ++ Program.line "return model;" ++ "\x7d\n").trans ?_
  -- Nothing is wrong, and the pieces make up the lines of the function.
  congr 1
  rw [Target.programText, Target.functionText, functionText, prologue_eq_ofLines,
    Graph.flatMap_lines_modelOf, Program.line_eq_ofLines, Program.line_eq_ofLines,
    show "\x7d\n" = Text.ofLines ["\x7d"] from rfl, ← Text.ofLines_append, ← Text.ofLines_append,
    ← Text.ofLines_append, ← Text.ofLines_append]
  simp only [List.map_append, List.append_assoc]
  rfl

/-! ### Sequential programs -/

/-- For each layer its line is added, and the first one may get a shape. -/
private theorem addLayer_eq_unlessFault (g : Graph) (c : Chain) (code : String)
    (layer : NodeId × Nat) :
    addLayer g (g.shapeOf c) code layer =
      .unlessFault (g.undeclared? layer.1) (code ++ Text.ofLines ["    " ++ additionText
        (g.kindOf layer.1) (optionEntries
          (if layer.2 = 0 then g.firstEntries c layer.1
            else (g.parametersOf layer.1).entries))]) := by
  rw [addLayer, ← Program.line_eq_ofLines]
  by_cases hid : layer.1 ∈ g.ids
  · obtain ⟨n, hn⟩ := (g.mem_ids_iff _).mp hid
    -- The two tests for a shape are one: that it is the first layer, and that it has none.
    have hentries : (if layer.2 = 0 ∧ !n.parameters.contains "input_shape" then
        n.parameters.insert "input_shape" (g.shapeOf c) else n.parameters).entries =
        if layer.2 = 0 then g.firstEntries c layer.1 else n.parameters.entries := by
      rw [Graph.firstEntries, Graph.parametersOf_of_get? hn,
        ← OrderedMap.entries_insert_unless_contains]
      by_cases hindex : layer.2 = 0
      · cases hcontains : n.parameters.contains "input_shape" with
        | true => simp
        | false => simp [hindex]
      · simp [hindex]
    rw [Graph.node_of_get? hn, Graph.undeclared?_of_mem hid, Graph.kindOf_of_get? hn,
      Graph.parametersOf_of_get? hn, ← hentries, Except.ok_bind]
    unfold additionText
    rw [← config_eq_objectText]
    rfl
  · rw [Graph.node_of_not_mem hid, Graph.undeclared?_of_not_mem hid]
    rfl

/-- The sequential generator writes the layers of the chain. -/
theorem sequential_eq_unlessFault (g : Graph) (o : Options) (c : Chain) :
    sequential g o c =
      .unlessFault (g.stackFault? c) (Target.tensorFlowJs.stackText o (g.stackOf c)) := by
  rw [sequential, Graph.inputShape_eq_unlessFault, Graph.stackFault?_eq_or]
  -- The input is looked up before the layers.
  refine Except.unlessFault_bind _ _ _ _ ?_
  rw [Except.foldlM_lines (addLayer_eq_unlessFault g c), Graph.findSome?_zipIdx]
  refine (Except.unlessFault_map _ _ fun code =>
    code ++ Program.line "return model;" ++ "\x7d\n").trans ?_
  congr 1
  rw [Graph.flatMap_lines_stackOf g c fun kind entries => additionText kind (optionEntries entries),
    Target.stackText, Target.functionText, functionText, prologue_eq_ofLines,
    Program.line_eq_ofLines, Program.line_eq_ofLines,
    show "\x7d\n" = Text.ofLines ["\x7d"] from rfl, ← Text.ofLines_append, ← Text.ofLines_append,
    ← Text.ofLines_append, ← Text.ofLines_append]
  simp only [List.map_append, List.append_assoc]
  rfl

end TensorFlowJs

/-! ## Any target -/

namespace Graph

variable {g : Graph}

/-- Every declared node has a statement, which is empty for an output. -/
theorem statement_eq_unlessFault (hg : g.WellFormed) (target : Target) (id : NodeId) :
    g.statement target id = .unlessFault (g.undeclared? id)
      (if g.isOutput id then "" else target.bindingText (g.bindingOf id)) :=
  match target with
  | .keras => Keras.statement_eq_unlessFault hg id
  | .tensorFlowJs => TensorFlowJs.statement_eq_unlessFault hg id

/-- What comes of generating a functional program. -/
theorem functional_result (hg : g.WellFormed) (o : Options) (order : List NodeId) :
    (g.functional o order).result =
      .unlessFault (g.modelFault? order) (o.target.programText o (g.modelOf order)) := by
  rw [functional]
  cases o.target with
  | keras => exact Keras.functional_result hg o order
  | tensorFlowJs => exact TensorFlowJs.functional_result hg o order

/-- What comes of generating a sequential program. -/
theorem sequential_result (g : Graph) (o : Options) (c : Chain) :
    (g.sequential o c).result =
      .unlessFault (g.stackFault? c) (o.target.stackText o (g.stackOf c)) := by
  rw [sequential]
  cases o.target with
  | keras => exact Keras.sequential_result g o c
  | tensorFlowJs => exact TensorFlowJs.sequential_eq_unlessFault g o c

end Graph

end LayerGraph
