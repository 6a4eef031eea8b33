import LayerGraph.Proofs.Stacks
import Mathlib.Data.List.Nodup
import Mathlib.Data.Set.Function

/-! # Keys of options

A TensorFlow.js program lists the parameters of a layer in an object, under keys in camel case.
Two different names can have the same camel case, and then the object has a key twice.  For names in
snake case this does not happen: each capital of the key marks the start of a word, so the name can
be read back from the key.

The first layer of a sequential program gets the shape of the input, unless it has a parameter
`input_shape`.  The test is about the name, not about the key.  A layer whose own shape goes by
another name with the same key has the key twice, and in JavaScript the last one counts.

## Key results

- `TensorFlowJs.snakeOf_camelFrom`: a name is read back from its key
- `optionKeys_nodup`: the objects of programs have distinct keys, if names are in snake case
- `sequential_shapeEntries`: the input shapes of the first layer of a sequential program -/

namespace LayerGraph

namespace TensorFlowJs

/-! ## Snake case -/

/-- A character of a word. -/
def isSmall (c : Char) : Bool := c.isLower || c.isDigit

/-- A lower-case letter, with lower-case letters and digits behind it. -/
def isWord : List Char → Bool
  | [] => false
  | c :: rest => c.isLower && rest.all isSmall

/-- Words with underscores between them. -/
inductive SnakeCase : List Char → Prop
  | word {w : List Char} (hw : isWord w) : SnakeCase w
  | join {w rest : List Char} (hw : isWord w) (hrest : SnakeCase rest) :
    SnakeCase (w ++ '_' :: rest)

/-- The name of the input shape is in snake case itself. -/
private theorem snakeCase_input_shape : SnakeCase "input_shape".toList :=
  .join (w := "input".toList) (by decide) (.word (w := "shape".toList) (by decide))

private theorem isSmall_of_isLower {c : Char} (h : c.isLower) : isSmall c := by
  rw [isSmall, h, Bool.true_or]

/-- No character of a word is a capital, … -/
private theorem not_isUpper_of_isSmall {c : Char} (h : isSmall c) : ¬ c.isUpper := by
  intro hupper
  unfold isSmall Char.isLower Char.isDigit at h
  unfold Char.isUpper at hupper
  simp only [Bool.or_eq_true, Bool.and_eq_true, decide_eq_true_eq, UInt32.le_iff_toNat_le,
    ge_iff_le] at h hupper
  grind

/-- … and none is an underscore. -/
private theorem ne_underscore_of_isSmall {c : Char} (h : isSmall c) : c ≠ '_' := by
  rintro rfl
  exact absurd h (by decide)

/-- The code points of lower-case letters. -/
private theorem toNat_of_isLower {c : Char} (h : c.isLower) : 97 ≤ c.toNat ∧ c.toNat ≤ 122 := by
  unfold Char.isLower at h
  simpa [UInt32.le_iff_toNat_le] using h

/-- The upper-case form of a lower-case letter is its capital. -/
private theorem upper_of_isLower {c : Char} (h : c.isLower) : Text.upper c = [c.toUpper] := by
  have hbound := (toNat_of_isLower h).2
  rw [Text.upper, if_pos (by omega)]

/-- The capital of a letter is a capital, and the letter can be read back from it. -/
theorem toUpper_of_isLower {c : Char} (h : c.isLower) :
    c.toUpper.isUpper ∧ c.toUpper.toLower = c := by
  have hletters : ∀ n : Fin 26, (Char.ofNat (97 + n)).toUpper.isUpper ∧
      (Char.ofNat (97 + n)).toUpper.toLower = Char.ofNat (97 + n) := by decide
  obtain ⟨hlow, hhigh⟩ := toNat_of_isLower h
  have hletter := hletters ⟨c.toNat - 97, by omega⟩
  rwa [Nat.add_sub_cancel' hlow, Char.ofNat_toNat] at hletter

/-! ## Reading a key back -/

/-- A capital is read as the start of a word. -/
def snakeOf (key : List Char) : List Char :=
  key.flatMap fun c => if c.isUpper then ['_', c.toLower] else [c]

private theorem snakeOf_append (key key' : List Char) :
    snakeOf (key ++ key') = snakeOf key ++ snakeOf key' :=
  List.flatMap_append

/-- A word is read as it stands. -/
private theorem snakeOf_of_all_isSmall {w : List Char} (hw : w.all isSmall) : snakeOf w = w := by
  induction w with
  | nil => rfl
  | cons c w ih =>
    rw [List.all_cons, Bool.and_eq_true] at hw
    rw [snakeOf, List.flatMap_cons, if_neg (not_isUpper_of_isSmall hw.1)]
    exact congrArg (c :: ·) (ih hw.2)

/-- A word as it stands in a key, where all but the first word start with a capital. -/
def capitalized (up : Bool) : List Char → List Char
  | [] => []
  | c :: rest => (if up then c.toUpper else c) :: rest

/-- A capital is read as the beginning of a word. -/
private theorem snakeOf_capitalized {w : List Char} (hw : isWord w) (up : Bool) :
    snakeOf (capitalized up w) = (if up then ['_'] else []) ++ w := by
  cases w with
  | nil => cases hw
  | cons c w =>
    rw [isWord, Bool.and_eq_true] at hw
    have hnot : ¬ c.isUpper := not_isUpper_of_isSmall (isSmall_of_isLower hw.1)
    have hrest := snakeOf_of_all_isSmall hw.2
    rw [snakeOf] at hrest
    rw [capitalized, snakeOf, List.flatMap_cons, hrest]
    cases up with
    | true => simp [toUpper_of_isLower hw.1]
    | false => simp [hnot]

/-- The rest of a word is written as it stands. -/
private theorem camelFrom_of_all_isSmall {w : List Char} (hw : w.all isSmall)
    (out rest : List Char) : camelFrom out false (w ++ rest) = camelFrom (out ++ w) false rest := by
  induction w generalizing out with
  | nil => simp
  | cons c w ih =>
    rw [List.all_cons, Bool.and_eq_true] at hw
    rw [List.cons_append, camelFrom, if_neg (ne_underscore_of_isSmall hw.1),
      if_neg Bool.false_ne_true, ih hw.2, List.append_assoc, List.singleton_append]

/-- A word is written with a capital if one is due. -/
private theorem camelFrom_of_isWord {w : List Char} (hw : isWord w) (out : List Char) (up : Bool)
    (rest : List Char) :
    camelFrom out up (w ++ rest) = camelFrom (out ++ capitalized up w) false rest := by
  cases w with
  | nil => cases hw
  | cons c w =>
    rw [isWord, Bool.and_eq_true] at hw
    rw [List.cons_append, camelFrom,
      if_neg (ne_underscore_of_isSmall (isSmall_of_isLower hw.1)), upper_of_isLower hw.1,
      camelFrom_of_all_isSmall hw.2, camelFrom_of_all_isSmall hw.2]
    cases up with
    | true => simp [capitalized]
    | false => simp [capitalized]

private theorem capitalized_ne_nil {w : List Char} (hw : isWord w) (up : Bool) :
    capitalized up w ≠ [] := by
  cases w with
  | nil => cases hw
  | cons c w => simp [capitalized]

/-- What has been written of a key is read back, whatever stands before it. -/
theorem snakeOf_camelFrom {name : List Char} (hname : SnakeCase name) (out : List Char)
    (up : Bool) :
    snakeOf (camelFrom out up name) = snakeOf out ++ (if up then ['_'] else []) ++ name := by
  induction hname generalizing out up with
  | @word w hw =>
    have hcamel := camelFrom_of_isWord hw out up []
    rw [List.append_nil, camelFrom] at hcamel
    rw [hcamel, snakeOf_append, snakeOf_capitalized hw, List.append_assoc]
  | @join w rest hw _ ih =>
    -- A word has been written, so the underscore makes a capital of what follows.
    have hsome : (out ++ capitalized up w).isEmpty = false := by
      simp [capitalized_ne_nil hw]
    rw [camelFrom_of_isWord hw, camelFrom, if_pos rfl, hsome, ih, snakeOf_append,
      snakeOf_capitalized hw]
    simp

/-- Names in snake case have different keys. -/
theorem camelCase_injOn : Set.InjOn camelCase { name | SnakeCase name.toList } := by
  intro name hname name' hname' h
  have hread := snakeOf_camelFrom hname [] false
  rw [String.ofList_injective h, snakeOf_camelFrom hname' [] false] at hread
  exact String.toList_injective (by simpa [snakeOf] using hread.symm)

-- A capital or a digit at the start of a word would hide where the word starts.
example : camelCase "kernelSize" = camelCase "kernel_size" ∧ camelCase "a_1" = camelCase "a1" := by
  decide

/-! ## The keys of an object -/

/-- The keys of the object for some parameters, in the order in which they are written. -/
def optionKeys (entries : List (String × Value)) : List String :=
  (optionEntries entries).map Prod.fst

/-- The keys are the names in camel case. -/
private theorem optionKeys_eq_map (entries : List (String × Value)) :
    optionKeys entries = (entries.map Prod.fst).map camelCase := by
  rw [optionKeys, optionEntries, List.map_map, List.map_map]
  rfl

/-- Parameters with names in snake case have distinct keys. -/
private theorem nodup_optionKeys {params : Parameters}
    (hnames : ∀ name ∈ params.keys, SnakeCase name.toList) : (optionKeys params.entries).Nodup := by
  rw [optionKeys_eq_map]
  exact params.distinct.map_on fun name hname name' hname' =>
    camelCase_injOn (hnames name hname) (hnames name' hname')

/-! ## The input shape -/

/-- The entries of an object with the key of the input shape. -/
def shapeEntries (entries : List (String × Value)) : List (String × Value) :=
  entries.filter fun e => e.1 = "inputShape"

/-- The parameters with which a layer has an input shape of its own, under whatever names. -/
def ownShapes (params : Parameters) : List (String × Value) :=
  params.entries.filter fun e => camelCase e.1 = "inputShape"

/-- Entries with the key of the input shape come from the shapes of the layer itself. -/
private theorem shapeEntries_optionEntries (params : Parameters) :
    shapeEntries (optionEntries params.entries) =
      (ownShapes params).map fun e => ("inputShape", e.2) := by
  rw [shapeEntries, optionEntries, List.filter_map, ownShapes]
  refine List.map_congr_left fun e he => ?_
  have hkey : camelCase e.1 = "inputShape" := of_decide_eq_true (List.mem_filter.mp he).2
  rw [hkey]

private theorem camelCase_input_shape : camelCase "input_shape" = "inputShape" := by decide

/-- The test for an input shape sees only one of the names that have its key. -/
theorem contains_input_shape_iff (params : Parameters) :
    params.contains "input_shape" ↔ "input_shape" ∈ (ownShapes params).map Prod.fst := by
  have hcontains : params.contains "input_shape" ↔ "input_shape" ∈ params.keys :=
    (params.mem_keys_iff "input_shape").symm
  rw [hcontains, OrderedMap.keys, List.mem_map, List.mem_map]
  refine exists_congr fun e => and_congr_left fun he => ?_
  rw [ownShapes, List.mem_filter, he, camelCase_input_shape]
  simp

end TensorFlowJs

open TensorFlowJs

namespace Graph

variable {g : Graph} {c : Chain} {first : NodeId} {rest : List NodeId}

/-- The first layer has its own shapes and behind them that of the input, unless the test finds one.
    -/
private theorem shapeEntries_firstEntries (g : Graph) (c : Chain) (first : NodeId) :
    shapeEntries (optionEntries (g.firstEntries c first)) =
      (ownShapes (g.parametersOf first)).map (fun e => ("inputShape", e.2)) ++
        if (g.parametersOf first).contains "input_shape" then []
        else [("inputShape", g.shapeOf c)] := by
  rw [firstEntries, optionEntries, List.map_append, shapeEntries, List.filter_append,
    ← shapeEntries_optionEntries]
  congr 1
  split
  · rfl
  · simp [camelCase_input_shape]

/-- Which input shapes the first layer has, if it has at most one of its own. -/
private theorem shapeEntries_firstEntries_of_length_le_one
    (hone : (ownShapes (g.parametersOf first)).length ≤ 1) :
    shapeEntries (optionEntries (g.firstEntries c first)) =
      match ownShapes (g.parametersOf first) with
      | [] => [("inputShape", g.shapeOf c)]
      | (name, value) :: _ =>
        if name = "input_shape" then [("inputShape", value)]
        else [("inputShape", value), ("inputShape", g.shapeOf c)] := by
  have hcontains := contains_input_shape_iff (g.parametersOf first)
  rw [shapeEntries_firstEntries]
  cases hown : ownShapes (g.parametersOf first) with
  | nil =>
    -- Without a shape of its own the layer gets that of the input.
    rw [hown] at hcontains
    simp [hcontains]
  | cons e others =>
    obtain rfl : others = [] := by simpa [hown] using hone
    rw [hown, List.map_singleton, List.mem_singleton] at hcontains
    rw [List.map_singleton]
    -- The name of the only shape decides, and the test sees no other name.
    by_cases hname : e.1 = "input_shape"
    · rw [if_pos (hcontains.mpr hname.symm)]
      simp [hname]
    · rw [if_neg (mt hcontains.mp (Ne.symm hname))]
      simp [hname]

/-! ## Distinct keys -/

/-- An id that is not declared has no parameters, so the names of all ids are in snake case. -/
private theorem snakeCase_of_mem_keys_parametersOf
    (hnames : ∀ id ∈ g.ids, ∀ name ∈ (g.parametersOf id).keys, SnakeCase name.toList)
    (id : NodeId) : ∀ name ∈ (g.parametersOf id).keys, SnakeCase name.toList := by
  intro name hname
  rw [parametersOf] at hname
  cases hn : g.get? id with
  | none =>
    rw [hn] at hname
    cases hname
  | some n =>
    have hid : id ∈ g.ids := (g.mem_ids_iff id).mpr ⟨n, hn⟩
    exact hnames id hid name hname

/-- The input shape that the first layer gets does not stand under a key that is there already. -/
theorem nodup_optionKeys_firstEntries
    (hnames : ∀ name ∈ (g.parametersOf first).keys, SnakeCase name.toList) :
    (optionKeys (g.firstEntries c first)).Nodup := by
  rw [firstEntries, ← OrderedMap.entries_insert_unless_contains]
  refine nodup_optionKeys fun name hname => ?_
  rw [OrderedMap.keys, OrderedMap.entries_insert_unless_contains, List.map_append,
    List.mem_append] at hname
  rcases hname with hname | hname
  · exact hnames name hname
  · split at hname
    · cases hname
    · obtain rfl : name = "input_shape" := by simpa using hname
      exact snakeCase_input_shape

/-- Every layer on the stack has distinct keys. -/
private theorem nodup_optionKeys_of_mem_stackOf
    (hnames : ∀ id, ∀ name ∈ (g.parametersOf id).keys, SnakeCase name.toList)
    {l : String × List (String × Value)} (hl : l ∈ g.stackOf c) : (optionKeys l.2).Nodup := by
  cases hlayers : c.layers with
  | nil =>
    rw [stackOf, hlayers] at hl
    cases hl
  | cons first rest =>
    rw [stackOf_cons g hlayers, List.mem_cons, List.mem_map] at hl
    rcases hl with rfl | ⟨id, _, rfl⟩
    · exact nodup_optionKeys_firstEntries (hnames first)
    · exact nodup_optionKeys (hnames id)

/-- Which statement is generated for a node, and when. -/
private theorem statement_eq_ok_iff (hg : g.WellFormed) (target : Target) (id : NodeId)
    (text : String) :
    g.statement target id = .ok text ↔
      id ∈ g.ids ∧ text = if g.isOutput id then "" else target.bindingText (g.bindingOf id) := by
  rw [statement_eq_unlessFault hg, Except.unlessFault_eq_ok_iff, undeclared?]
  simp

/-- Which sequential program is generated, and when. -/
private theorem sequential_eq_ok_iff (g : Graph) (o : Options) (c : Chain) (code : String) :
    (g.sequential o c).result = .ok code ↔
      (∀ id ∈ c.input :: c.layers, id ∈ g.ids) ∧ code = o.target.stackText o (g.stackOf c) := by
  rw [sequential_result, Except.unlessFault_eq_ok_iff, stackFault?,
    findSome?_undeclared?_eq_none_iff]

/-- If the names of all parameters are in snake case, then no two names of parameters have the same
    key.  The object for some parameters has their keys and values, one after the other.  The one in
    the statement of a node has distinct keys, and so have the objects in a sequential program,
    where the first layer may have got an input shape. -/
theorem optionKeys_nodup (hg : g.Built)
    (hnames : ∀ id ∈ g.ids, ∀ name ∈ (g.parametersOf id).keys, SnakeCase name.toList) :
    Set.InjOn camelCase { name | SnakeCase name.toList } ∧
    (∀ params, TensorFlowJs.config params = objectText (optionEntries params.entries)) ∧
    (∀ id text, g.statement .tensorFlowJs id = .ok text ↔
      id ∈ g.ids ∧ text = if g.isOutput id then "" else TensorFlowJs.bindingText (g.bindingOf id)) ∧
    (∀ id, (optionKeys (g.bindingOf id).parameters.entries).Nodup) ∧
    (∀ o c code, o.target = .tensorFlowJs → ((g.sequential o c).result = .ok code ↔
      (∀ id ∈ c.input :: c.layers, id ∈ g.ids) ∧
        code = Target.tensorFlowJs.stackText o (g.stackOf c))) ∧
    ∀ c, ∀ l ∈ g.stackOf c, (optionKeys l.2).Nodup := by
  have hall := snakeCase_of_mem_keys_parametersOf hnames
  -- What is written are the keys of the parameters, and these are distinct as the names are.
  refine ⟨camelCase_injOn, config_eq_objectText, statement_eq_ok_iff hg.wellFormed .tensorFlowJs,
    fun id => nodup_optionKeys (hall id), fun o c code ho => ?_,
    fun c l hl => nodup_optionKeys_of_mem_stackOf hall hl⟩
  rw [sequential_eq_ok_iff, ho]

private theorem typedLine_snakeCase : ∀ id ∈ typedLine.ids,
    ∀ name ∈ (typedLine.parametersOf id).keys, SnakeCase name.toList := by
  have hnames : ∀ name ∈ ["shape", "dtype", "input_dim", "units"], SnakeCase name.toList := by
    simp only [List.forall_mem_cons]
    exact ⟨.word (by decide), .word (by decide),
      .join (w := "input".toList) (by decide) (.word (w := "dim".toList) (by decide)),
      .word (by decide), by simp⟩
  have hmem : ∀ id ∈ typedLine.ids, ∀ name ∈ (typedLine.parametersOf id).keys,
      name ∈ ["shape", "dtype", "input_dim", "units"] := by decide
  exact fun id hid name hname => hnames name (hmem id hid name hname)

/-- The shape of the input stands beside another parameter of the first layer. -/
theorem optionKeys_nodup_typedLine :
    typedLine.Built ∧ SnakeCase "input_dim".toList ∧
    typedLine.statement .tensorFlowJs ⟨"x"⟩ =
      .ok "const layer_x = tf.layers.embedding(\x7binputDim: 10\x7d).apply(input_a);" ∧
    (typedLine.sequential { target := .tensorFlowJs } ⟨⟨"a"⟩, [⟨"x"⟩, ⟨"y"⟩]⟩).result =
      .ok (Target.tensorFlowJs.stackText { target := .tensorFlowJs }
        [("Embedding", [("input_dim", .ofInt 10), ("input_shape", .seq [.ofInt 4])]),
          ("Dense", [("units", .ofInt 2)])]) ∧
    (optionKeys [("input_dim", .ofInt 10), ("input_shape", .seq [.ofInt 4])]).Nodup := by
  obtain ⟨_, _, hstatement, _, hsequential, hkeys⟩ :=
    optionKeys_nodup typedLine_built typedLine_snakeCase
  have hname := typedLine_snakeCase ⟨"x"⟩ (by decide) "input_dim" (by decide)
  refine ⟨typedLine_built, hname, ?_, ?_, ?_⟩
  · exact (hstatement _ _).mpr ⟨by decide, by decide +kernel⟩
  · exact (hsequential _ _ _ rfl).mpr ⟨by decide, rfl⟩
  · exact hkeys ⟨⟨"a"⟩, [⟨"x"⟩, ⟨"y"⟩]⟩
      ("Embedding", [("input_dim", .ofInt 10), ("input_shape", .seq [.ofInt 4])])
      List.mem_cons_self

/-! ## The shape of the first layer -/

/-- Where the first layer of a chain has at most one input shape of its own, the sequential program
    has one statement for each layer, and under the key of the input shape the object of the first
    layer has the shape of the input if the layer has none of its own, the shape of the layer if its
    name is `input_shape`, and both if it has another name with the same key. -/
theorem sequential_shapeEntries {o : Options} (ho : o.target = .tensorFlowJs)
    (hids : ∀ id ∈ c.input :: c.layers, id ∈ g.ids) (hlayers : c.layers = first :: rest)
    (hone : (ownShapes (g.parametersOf first)).length ≤ 1) :
    ∃ entries, entries = optionEntries (g.firstEntries c first) ∧
      (g.sequential o c).result = .ok (TensorFlowJs.functionText o
        ("const model = tf.sequential();" :: TensorFlowJs.additionText (g.kindOf first) entries ::
          rest.map fun id => TensorFlowJs.additionText (g.kindOf id)
            (optionEntries (g.parametersOf id).entries))) ∧
      shapeEntries entries =
        match ownShapes (g.parametersOf first) with
        | [] => [("inputShape", g.shapeOf c)]
        | (name, value) :: _ =>
          if name = "input_shape" then [("inputShape", value)]
          else [("inputShape", value), ("inputShape", g.shapeOf c)] := by
  refine ⟨_, rfl, (sequential_eq_ok_iff g o c _).mpr ⟨hids, ?_⟩,
    shapeEntries_firstEntries_of_length_le_one hone⟩
  -- The first layer is written with the entries above, the others with their own.
  rw [stackOf_cons g hlayers, ho, Target.stackText, List.map_cons, List.map_map]
  rfl

/-- A layer that spells its input shape as JavaScript does. -/
def spelledLine : Graph where
  nodes := ⟨[
    (⟨"a"⟩, ⟨"Input", .ofList [("shape", .seq [.ofInt 4])], [], [⟨"x"⟩]⟩),
    (⟨"x"⟩, ⟨"Dense", .ofList [("units", .ofInt 2), ("inputShape", .seq [.ofInt 9])],
      [⟨"a"⟩], [⟨"z"⟩]⟩),
    (⟨"z"⟩, ⟨"Output", ∅, [⟨"x"⟩], []⟩)], by decide⟩
  inputs := [⟨"a"⟩]
  outputs := [⟨"z"⟩]

private theorem spelledLine_built : spelledLine.Built := .descriptions [
  ⟨⟨"a"⟩, "Input", .ofList [("shape", .seq [.ofInt 4])], [], none⟩,
  ⟨⟨"x"⟩, "Dense", .ofList [("units", .ofInt 2), ("inputShape", .seq [.ofInt 9])], [⟨"a"⟩], none⟩,
  ⟨⟨"z"⟩, "Output", ∅, [⟨"x"⟩], none⟩] rfl

/-- The shape of the input stands behind the one of the layer. -/
theorem sequential_shapeEntries_spelledLine :
    (∀ id ∈ [⟨"a"⟩, ⟨"x"⟩], id ∈ spelledLine.ids) ∧
    ownShapes (spelledLine.parametersOf ⟨"x"⟩) = [("inputShape", .seq [.ofInt 9])] ∧
    (spelledLine.sequential { target := .tensorFlowJs } ⟨⟨"a"⟩, [⟨"x"⟩]⟩).result =
      .ok (Text.ofLines [
        "import * as tf from '@tensorflow/tfjs';",
        "",
        "function createModel() \x7b",
        "    const model = tf.sequential();",
        "    model.add(tf.layers.dense(\x7bunits: 2, inputShape: [9], inputShape: [4]\x7d));",
        "    return model;",
        "\x7d"]) ∧
    shapeEntries [("units", .ofInt 2), ("inputShape", .seq [.ofInt 9]),
        ("inputShape", .seq [.ofInt 4])] =
      [("inputShape", .seq [.ofInt 9]), ("inputShape", .seq [.ofInt 4])] := by
  have hids : ∀ id ∈ [⟨"a"⟩, ⟨"x"⟩], id ∈ spelledLine.ids := by decide
  have hown : ownShapes (spelledLine.parametersOf ⟨"x"⟩) = [("inputShape", .seq [.ofInt 9])] := by
    decide
  obtain ⟨entries, hentries, hprogram, hshapes⟩ := sequential_shapeEntries (g := spelledLine)
    (o := { target := .tensorFlowJs }) (c := ⟨⟨"a"⟩, [⟨"x"⟩]⟩) rfl hids rfl (by rw [hown]; decide)
  have hwritten : entries = [("units", .ofInt 2), ("inputShape", .seq [.ofInt 9]),
      ("inputShape", .seq [.ofInt 4])] := hentries.trans (by decide)
  rw [hown, hwritten] at hshapes
  rw [hwritten] at hprogram
  exact ⟨hids, hown, hprogram.trans (congrArg Except.ok (by decide +kernel)), hshapes⟩

/-- A layer with an input shape of its own can have another one beside it in its object. -/
theorem shapeEntries_ne_singleton :
    ¬ ∀ (g : Graph) (o : Options) (c : Chain) (first : NodeId) (rest : List NodeId)
      (entries : List (String × Value)) (others : List String), g.Built →
      o.target = .tensorFlowJs → c.layers = first :: rest →
      (ownShapes (g.parametersOf first)).length ≤ 1 →
      entries = optionEntries (g.firstEntries c first) →
      (g.sequential o c).result = .ok (TensorFlowJs.functionText o
        ("const model = tf.sequential();" ::
          TensorFlowJs.additionText (g.kindOf first) entries :: others)) →
      shapeEntries entries = [("inputShape",
        ((ownShapes (g.parametersOf first)).head?.map Prod.snd).getD (g.shapeOf c))] := by
  intro hall
  have hprogram := (sequential_eq_ok_iff spelledLine { target := .tensorFlowJs }
    ⟨⟨"a"⟩, [⟨"x"⟩]⟩ _).mpr ⟨by decide, rfl⟩
  have hsingle := hall spelledLine { target := .tensorFlowJs } ⟨⟨"a"⟩, [⟨"x"⟩]⟩ ⟨"x"⟩ [] _ []
    spelledLine_built rfl rfl (by decide) rfl hprogram
  exact absurd hsingle (by decide)

end Graph

end LayerGraph
