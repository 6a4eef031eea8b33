import LayerGraph.Proofs.Json.Values
import LayerGraph.Request.Json

/-! # Requests are read back

A request is read back from its JSON text.  The text may also have members that no field has asked
for, in the request itself and in its layers and their descriptors, at any place among the members
and with any values: `Padded` says which texts these are.

## Key results

- `Request.padded_toJson`: the text that is written is one of them
- `Descriptor.takes_reader`, `Layer.takes_reader`: readers take padded texts
- `Request.padded_roundtrip`: requests are read back -/

namespace LayerGraph

open Json

/-! ## Texts with extra members -/

namespace Json

variable {α : Type}

/-- The texts of a value that may be absent. -/
inductive OptionPadded (padded : α → List Char → Prop) : Option α → List Char → Prop
  | absent : OptionPadded padded none "null".toList
  | present {a : α} {text : List Char} (h : padded a text) : OptionPadded padded (some a) text

end Json

/-- The texts of a descriptor: its members as they are written, and any others among them. -/
def Descriptor.Padded (d : Descriptor) : (text : List Char) → Prop :=
  ObjectPadded ["name", "parameterValues"]
    [("name", (quote d.name).toList), ("parameterValues", (parametersText d.parameters).toList)]

mutual
/-- The texts of a layer: its members as they are written, and any others among them.  The same goes
    for its descriptor and for the layers inside of it. -/
inductive Layer.Padded : Layer → (text : List Char) → Prop
  | mk {l : Layer} {descriptor children text : List Char}
    (hdescriptor : OptionPadded Descriptor.Padded l.descriptor descriptor)
    (hchildren : Layer.ChildrenPadded l.children children)
    (h : ObjectPadded ["id", "kerasLayer", "inputLayers", "outputLayers", "children"]
      [("id", l.id.toJson.toList), ("kerasLayer", descriptor),
        ("inputLayers", (NodeId.listJson l.sources).toList),
        ("outputLayers", (NodeId.listJson l.targets).toList), ("children", children)] text) :
    Layer.Padded l text

/-- The texts of the layers in a group. -/
inductive Layer.ChildrenPadded : Option (List Layer) → (text : List Char) → Prop
  | absent : Layer.ChildrenPadded none "null".toList
  | present {ls : List Layer} {texts : List (List Char)} (h : List.Forall₂ Layer.Padded ls texts) :
    Layer.ChildrenPadded (some ls) ('[' :: (commas texts ++ [']']))
end

/-- The texts of a request: its members as they are written, and any others among them.  The same
    goes for its layers. -/
inductive Request.Padded (r : Request) : (text : List Char) → Prop
  | mk {layers : List (List Char)} {text : List Char}
    (hlayers : List.Forall₂ Layer.Padded r.layers layers)
    (h : ObjectPadded ["layers", "inputs", "outputs"]
      (("layers", '[' :: (commas layers ++ [']'])) ::
        (endpointMember "inputs" r.inputs ++ endpointMember "outputs" r.outputs).map
          fun m => (m.1, m.2.toList)) text) :
    Padded r text

/-! ## Numbers -/

/-- The numbers among the parameters of a descriptor. -/
def Descriptor.numbers (d : Descriptor) : List Number :=
  d.parameters.entries.flatMap fun e => e.2.numbers

mutual
/-- The numbers among the parameters of a layer and of the layers inside of it. -/
def Layer.numbers : Layer → List Number
  | ⟨_, descriptor, _, _, none⟩ => descriptor.toList.flatMap Descriptor.numbers
  | ⟨_, descriptor, _, _, some ls⟩ =>
    descriptor.toList.flatMap Descriptor.numbers ++ Layer.numbersAll ls

/-- The numbers among the parameters of several layers. -/
def Layer.numbersAll : List Layer → List Number
  | [] => []
  | l :: ls => l.numbers ++ Layer.numbersAll ls
end

/-- The numbers among the parameters of a request. -/
def Request.numbers (r : Request) : List Number := Layer.numbersAll r.layers

namespace Layer

/-- The numbers in some layers are those in one of them. -/
theorem mem_numbersAll {ls : List Layer} {n : Number} :
    n ∈ numbersAll ls ↔ ∃ l ∈ ls, n ∈ l.numbers := by
  induction ls with
  | nil => simp [numbersAll]
  | cons l ls ih => simp [numbersAll, ih]

/-- The numbers of a descriptor are numbers of its layer, … -/
private theorem mem_numbers_of_descriptor {l : Layer} {d : Descriptor} (h : l.descriptor = some d)
    {n : Number} (hn : n ∈ d.numbers) : n ∈ l.numbers := by
  obtain ⟨id, descriptor, sources, targets, children⟩ := l
  cases h
  cases children <;> simp [numbers, hn]

/-- … and so are those of a child. -/
private theorem mem_numbers_of_child {l c : Layer} {ls : List Layer} (h : l.children = some ls)
    (hc : c ∈ ls) {n : Number} (hn : n ∈ c.numbers) : n ∈ l.numbers := by
  obtain ⟨id, descriptor, sources, targets, children⟩ := l
  cases h
  rw [numbers]
  exact List.mem_append_right _ (mem_numbersAll.mpr ⟨c, hc, hn⟩)

/-- Induction on layers: a layer has a property if its children have it. -/
theorem induction {P : Layer → Prop}
    (step : ∀ l : Layer, (∀ ls, l.children = some ls → ∀ c ∈ ls, P c) → P l) (l : Layer) : P l :=
  @Layer.rec P (fun children => ∀ ls, children = some ls → ∀ c ∈ ls, P c)
    (fun ls => ∀ c ∈ ls, P c) (fun _ _ _ _ _ h => step _ h) (fun _ h => nomatch h)
    (fun _ h _ hls => Option.some.inj hls ▸ h) (fun _ h => nomatch h)
    (fun _ _ hl hls _ hmem => (List.mem_cons.mp hmem).elim (fun h => h ▸ hl) (hls _)) l

/-! ## What is written -/

/-- Layers are written one by one. -/
private theorem toJsonAll_eq_map (ls : List Layer) : toJsonAll ls = ls.map toJson := by
  induction ls with
  | nil => rfl
  | cons l ls ih => rw [toJsonAll, ih, List.map_cons]

/-- The members of a layer as it is written. -/
def textMembers (l : Layer) : List (String × String) := [
  ("id", l.id.toJson),
  ("kerasLayer", optionText Descriptor.toJson l.descriptor),
  ("inputLayers", NodeId.listJson l.sources),
  ("outputLayers", NodeId.listJson l.targets),
  ("children", optionText (fun ls => arrayText (ls.map toJson)) l.children)]

/-- A layer is written as the object of its members. -/
private theorem toJson_eq (l : Layer) : l.toJson = objectText l.textMembers := by
  obtain ⟨id, descriptor, sources, targets, children⟩ := l
  cases children with
  | none => rfl
  | some ls =>
    rw [textMembers, optionText, ← toJsonAll_eq_map]
    rfl

end Layer

/-! ## What is written is balanced -/

/-- What may be absent is balanced if it is so when present. -/
private theorem Json.balanced_optionText {α : Type} {write : α → String} {o : Option α}
    (h : ∀ a ∈ o, Balanced (write a).toList) : Balanced (optionText write o).toList := by
  cases o with
  | none =>
    have hnull : Level "null".toList := level_of_all (by decide)
    exact hnull.balanced
  | some a => exact h a rfl

private theorem NodeId.balanced_texts (ids : List NodeId) :
    ∀ t ∈ ids.map NodeId.toJson, Balanced t.toList := by
  rw [List.forall_mem_map]
  exact fun id _ => (level_quote id.text).balanced

/-- Lists of ids are balanced. -/
private theorem NodeId.balanced_listJson (ids : List NodeId) :
    Balanced (NodeId.listJson ids).toList :=
  balanced_arrayText (NodeId.balanced_texts ids)

namespace Descriptor

/-- The members of a descriptor are balanced. -/
theorem balanced_members (d : Descriptor) :
    ∀ m ∈ [("name", quote d.name), ("parameterValues", parametersText d.parameters)],
      Balanced m.2.toList := by
  simp only [List.forall_mem_cons]
  exact ⟨(level_quote d.name).balanced, balanced_parametersText d.parameters, nofun⟩

/-- Descriptors are balanced, … -/
private theorem balanced_toJson (d : Descriptor) : Balanced d.toJson.toList :=
  balanced_objectText d.balanced_members

end Descriptor

namespace Layer

/-- A layer is balanced if its children are. -/
theorem balanced_textMembers {l : Layer}
    (h : ∀ ls, l.children = some ls → ∀ c ∈ ls, Balanced c.toJson.toList) :
    ∀ m ∈ l.textMembers, Balanced m.2.toList := by
  simp only [textMembers, List.forall_mem_cons]
  refine ⟨(level_quote l.id.text).balanced, balanced_optionText fun d _ => d.balanced_toJson,
    NodeId.balanced_listJson l.sources, NodeId.balanced_listJson l.targets, ?_, nofun⟩
  apply balanced_optionText
  intro ls hls
  apply balanced_arrayText
  rw [List.forall_mem_map]
  exact h ls hls

/-- … and so are layers, however deep. -/
private theorem balanced_toJson (l : Layer) : Balanced l.toJson.toList := by
  induction l using Layer.induction with
  | step l ih =>
    rw [toJson_eq]
    exact balanced_objectText (balanced_textMembers ih)

end Layer

/-! ## What is written is padded with nothing -/

/-- The written text is one of the texts with added blanks and members: that without any. -/
private theorem Json.objectPadded_objectText (names : List String) (ms : List (String × String)) :
    ObjectPadded names (ms.map fun m => (m.1, m.2.toList)) (objectText ms).toList := by
  rw [toList_objectText]
  apply ObjectPadded.mk
  rw [List.map_map]
  exact Interspersed.refl _ _

private theorem Descriptor.padded_toJson (d : Descriptor) : d.Padded d.toJson.toList :=
  objectPadded_objectText ["name", "parameterValues"]
    [("name", quote d.name), ("parameterValues", parametersText d.parameters)]

private theorem Layer.padded_toJson (l : Layer) : l.Padded l.toJson.toList := by
  induction l using Layer.induction with
  | step l ih =>
    rw [toJson_eq]
    refine .mk ?_ ?_ (objectPadded_objectText _ l.textMembers)
    · cases l.descriptor with
      | none => exact .absent
      | some d => exact .present d.padded_toJson
    · cases hchildren : l.children with
      | none => exact .absent
      | some ls =>
        rw [optionText, toList_arrayText, List.map_map]
        apply ChildrenPadded.present
        rw [List.forall₂_map_right_iff, List.forall₂_same]
        exact ih ls hchildren

/-- A request as it is written is one of its padded texts. -/
theorem Request.padded_toJson (r : Request) : r.Padded r.toJson.toList := by
  have hlayers : List.Forall₂ Layer.Padded r.layers (r.layers.map fun l => l.toJson.toList) := by
    rw [List.forall₂_map_right_iff, List.forall₂_same]
    exact fun l _ => l.padded_toJson
  refine .mk hlayers ?_
  have htext := objectPadded_objectText ["layers", "inputs", "outputs"]
    (("layers", arrayText (Layer.toJsonAll r.layers)) ::
      endpointMember "inputs" r.inputs ++ endpointMember "outputs" r.outputs)
  rw [Layer.toJsonAll_eq_map] at htext
  simpa [toList_arrayText, Layer.toJsonAll_eq_map, Function.comp_def, toJson] using htext

/-! ## What is written is read -/

private theorem NodeId.takesElement_reader (depth : Nat) (id : NodeId) :
    TakesElement (NodeId.reader depth) id.toJson.toList id where
  takes := (takesElement_text depth id.text).takes.check rfl
  starts := (takesElement_text depth id.text).starts

/-- A list of ids is read back if it is not nested too deep. -/
private theorem NodeId.takes_listReader {ids : List NodeId} {depth : Nat}
    (hnest : nesting (NodeId.listJson ids).toList ≤ depth) :
    (NodeId.listReader depth).Takes (NodeId.listJson ids).toList ids := by
  obtain ⟨d, rfl, _⟩ := (nesting_arrayText_le (NodeId.balanced_texts ids) depth).mp hnest
  rw [NodeId.listJson, toList_arrayText]
  apply takes_array
  rw [List.map_map, List.forall₂_map_left_iff, List.forall₂_same]
  exact fun id _ => NodeId.takesElement_reader d id

/-- A descriptor is read from any of its texts. -/
theorem Descriptor.takes_reader {d : Descriptor} {text : List Char} {depth : Nat}
    (htext : d.Padded text) (hfits : ∀ n ∈ d.numbers, n.Fits)
    (hnest : nesting d.toJson.toList ≤ depth) : (Descriptor.reader depth).Takes text d := by
  obtain ⟨e, rfl, hdepth⟩ := (nesting_objectText_le d.balanced_members depth).mp hnest
  simp only [List.forall_mem_cons] at hdepth
  -- The parameters are one bracket further down.
  have hparameters : (Json.parameters e).Takes (parametersText d.parameters).toList
      d.parameters := by
    apply takes_parameters _ hdepth.2.1
    intro entry hentry n hn
    exact hfits n (List.mem_flatMap.mpr ⟨entry, hentry, hn⟩)
  have hfields : FieldTexts (Descriptor.fields e) [("name", (quote d.name).toList),
      ("parameterValues", (parametersText d.parameters).toList)] ⟨"", ∅⟩ d :=
    .given ((takes_string d.name).map _) (.given (hparameters.map _) (.nil _))
  exact hfields.takes_record htext rfl (by decide)

/-- Every text of a layer begins with a brace. -/
theorem Layer.Padded.starts {l : Layer} {text : List Char} (h : l.Padded text) :
    ∃ cs, text = '{' :: cs := by
  cases h with
  | mk _ _ h =>
    cases h with
    | mk _ => exact ⟨_, rfl⟩

/-- A layer that may have a descriptor is read if the descriptor is. -/
theorem Layer.takes_descriptor {descriptor : Option Descriptor} {text : List Char} {depth : Nat}
    (htext : OptionPadded Descriptor.Padded descriptor text)
    (hfits : ∀ d ∈ descriptor, ∀ n ∈ d.numbers, n.Fits)
    (hnest : nesting (optionText Descriptor.toJson descriptor).toList ≤ depth) :
    (nullable (Descriptor.reader depth)).Takes text descriptor := by
  cases htext with
  | absent => exact takes_nullable_none _
  | @present d text h =>
    apply takes_nullable_some (Descriptor.takes_reader h (hfits d rfl) hnest)
    cases h with
    | mk _ => exact ⟨_, _, rfl, by decide⟩

private theorem Layer.balanced_texts (ls : List Layer) :
    ∀ t ∈ ls.map toJson, Balanced t.toList := by
  rw [List.forall_mem_map]
  exact fun l _ => l.balanced_toJson

/-- Layers are read from any of their texts if each one is. -/
theorem Layer.takes_array {ls : List Layer} {texts : List (List Char)} {depth : Nat}
    (htexts : List.Forall₂ Layer.Padded ls texts)
    (h : ∀ l ∈ ls, ∀ text, l.Padded text → (Layer.reader depth).Takes text l) :
    (array (some (Layer.reader depth))).Takes ('[' :: (commas texts ++ [']'])) ls := by
  apply Json.takes_array
  apply List.Forall₂.flip
  apply List.Forall₂.imp _ ((List.forall₂_and_left ls texts).mpr ⟨h, htexts⟩)
  rintro l text ⟨htakes, hpadded⟩
  obtain ⟨cs, rfl⟩ := hpadded.starts
  exact ⟨htakes _ hpadded, '{', cs, rfl, by decide⟩

/-- Children are read back if each of them is. -/
private theorem Layer.takes_children {children : Option (List Layer)} {text : List Char}
    {depth : Nat} (htext : Layer.ChildrenPadded children text)
    (h : ∀ ls ∈ children, ∀ l ∈ ls, ∀ text, l.Padded text → (Layer.reader depth).Takes text l) :
    (nullable (array (some (Layer.reader depth)))).Takes text children := by
  cases htext with
  | absent => exact takes_nullable_none _
  | @present ls texts htexts =>
    exact takes_nullable_some (Layer.takes_array htexts (h ls rfl)) ⟨_, _, rfl, by decide⟩

/-- The fields of a layer are read from the texts of its parts. -/
theorem Layer.fieldTexts {l : Layer} {depth : Nat} {child : Option (Reader Layer)}
    {descriptor children : List Char}
    (hdescriptor : (nullable (Descriptor.reader depth)).Takes descriptor l.descriptor)
    (hsources : nesting (NodeId.listJson l.sources).toList ≤ depth)
    (htargets : nesting (NodeId.listJson l.targets).toList ≤ depth)
    (hchildren : (nullable (array child)).Takes children l.children) :
    FieldTexts (Layer.fields depth child)
      [("id", l.id.toJson.toList), ("kerasLayer", descriptor),
        ("inputLayers", (NodeId.listJson l.sources).toList),
        ("outputLayers", (NodeId.listJson l.targets).toList), ("children", children)]
      ⟨⟨""⟩, none, [], [], none⟩ l := by
  obtain ⟨id, _, sources, targets, _⟩ := l
  -- All five fields are given, in the order in which they are declared.
  apply FieldTexts.given ((NodeId.takesElement_reader depth id).takes.map _)
  apply FieldTexts.given (hdescriptor.map _)
  apply FieldTexts.given ((NodeId.takes_listReader hsources).map _)
  apply FieldTexts.given ((NodeId.takes_listReader htargets).map _)
  apply FieldTexts.given (hchildren.map _)
  exact .nil _

/-- A layer is read from any of its texts. -/
theorem Layer.takes_reader (l : Layer) : ∀ {text : List Char} {depth : Nat}, l.Padded text →
    (∀ n ∈ l.numbers, n.Fits) → nesting l.toJson.toList ≤ depth →
    (Layer.reader depth).Takes text l := by
  induction l using Layer.induction with
  | step l ih =>
    -- Children are read two levels further down, so the depth is not fixed before the induction.
    intro text depth htext hfits hnest
    rw [toJson_eq, nesting_objectText_le (balanced_textMembers fun ls _ c _ => c.balanced_toJson)]
      at hnest
    obtain ⟨d, rfl, hdepth⟩ := hnest
    simp only [textMembers, List.forall_mem_cons] at hdepth
    obtain ⟨_, hdescriptor, hsources, htargets, hchildren, _⟩ := hdepth
    -- The lists of ids open a second bracket, so there is room for two.
    obtain ⟨e, rfl, _⟩ := (nesting_arrayText_le (NodeId.balanced_texts l.sources) d).mp hsources
    cases htext with
    | @mk _ descriptor children _ hdescriptorText hchildrenText htext =>
      have hdescriptor := takes_descriptor hdescriptorText
        (fun d hd n hn => hfits n (mem_numbers_of_descriptor hd hn)) hdescriptor
      have hchildren : (nullable (array (some (Layer.reader e)))).Takes children l.children := by
        apply takes_children hchildrenText
        intro ls hls c hc text hpadded
        rw [Option.mem_def] at hls
        rw [hls, optionText, nesting_arrayText_le (balanced_texts ls)] at hchildren
        obtain ⟨_, heq, hdepth⟩ := hchildren
        cases heq
        exact ih ls hls c hc hpadded (fun n hn => hfits n (mem_numbers_of_child hls hc hn))
          (hdepth _ (List.mem_map_of_mem hc))
      rw [Layer.reader]
      exact (fieldTexts hdescriptor hsources htargets hchildren).takes_record htext rfl (by decide)

namespace Request

/-- A list of nodes that may be left out is read if it is there. -/
theorem fieldTexts_endpoint {depth : Nat} {name : String}
    {set : Option (List NodeId) → Request → Request} {ids : Option (List NodeId)}
    {fs : List (RecordField Request)} {ms : List (String × String)} {r r' : Request}
    (hnest : ∀ m ∈ endpointMember name ids, nesting m.2.toList ≤ depth) (hnone : set none r = r)
    (h : FieldTexts fs (ms.map fun m => (m.1, m.2.toList)) (set ids r) r') :
    FieldTexts (.optional name set (nullable (NodeId.listReader depth)) :: fs)
      ((endpointMember name ids ++ ms).map fun m => (m.1, m.2.toList)) r r' := by
  cases ids with
  | none =>
    -- A list that is not given is not written.
    rw [hnone] at h
    exact .missing rfl h
  | some ids =>
    have hdepth : nesting (NodeId.listJson ids).toList ≤ depth :=
      hnest (name, NodeId.listJson ids) List.mem_cons_self
    have hstarts : ∃ c cs, (NodeId.listJson ids).toList = c :: cs ∧ isBlank c = false ∧
        c ≠ 'n' := by
      rw [NodeId.listJson, toList_arrayText]
      exact ⟨_, _, rfl, by decide⟩
    exact .given ((takes_nullable_some (NodeId.takes_listReader hdepth) hstarts).map set) h

/-- The members of a request are balanced. -/
theorem balanced_members (r : Request) :
    ∀ m ∈ ("layers", arrayText (Layer.toJsonAll r.layers)) ::
      endpointMember "inputs" r.inputs ++ endpointMember "outputs" r.outputs,
      Balanced m.2.toList := by
  have hendpoint : ∀ name ids, ∀ m ∈ endpointMember name ids, Balanced m.2.toList := by
    intro name ids
    cases ids with
    | none => exact nofun
    | some ids =>
      rw [endpointMember, List.forall_mem_singleton]
      exact NodeId.balanced_listJson ids
  rw [List.cons_append, List.forall_mem_cons, Layer.toJsonAll_eq_map]
  refine ⟨balanced_arrayText (Layer.balanced_texts r.layers), ?_⟩
  rw [List.forall_mem_append]
  exact ⟨hendpoint _ _, hendpoint _ _⟩

/-- A request is read from any of its texts. -/
theorem takes_record {r : Request} {text : List Char} {depth : Nat} (htext : r.Padded text)
    (hfits : ∀ n ∈ r.numbers, n.Fits) (hnest : nesting r.toJson.toList ≤ depth) :
    (record (inside depth fields) ⟨[], none, none⟩).Takes text r := by
  rw [toJson, nesting_objectText_le r.balanced_members] at hnest
  obtain ⟨d, rfl, hdepth⟩ := hnest
  rw [List.cons_append, List.forall_mem_cons, List.forall_mem_append, Layer.toJsonAll_eq_map,
    nesting_arrayText_le (Layer.balanced_texts r.layers)] at hdepth
  obtain ⟨⟨e, rfl, hlayers⟩, hinputs, houtputs⟩ := hdepth
  cases htext with
  | @mk layers _ htexts htext =>
    -- The layers are two brackets further down.
    have harray : (array (inside (e + 1) Layer.reader)).Takes ('[' :: (commas layers ++ [']']))
        r.layers := by
      apply Layer.takes_array htexts
      intro l hl text hpadded
      exact l.takes_reader hpadded (fun n hn => hfits n (Layer.mem_numbersAll.mpr ⟨l, hl, hn⟩))
        (hlayers _ (List.mem_map_of_mem hl))
    -- The lists of endpoints may both be missing.
    have hfields : FieldTexts (fields (e + 1))
        (("layers", '[' :: (commas layers ++ [']'])) ::
          (endpointMember "inputs" r.inputs ++ endpointMember "outputs" r.outputs).map
            fun m => (m.1, m.2.toList)) ⟨[], none, none⟩ r := by
      rw [← List.append_nil (endpointMember "outputs" r.outputs)]
      apply FieldTexts.given (harray.map _)
      apply fieldTexts_endpoint hinputs rfl
      apply fieldTexts_endpoint houtputs rfl
      exact .nil _
    exact hfields.takes_record htext rfl (by decide)

/-- A request is read back from what is written for it, and from the same text with other members
    put in anywhere in the request, its layers and their descriptors. -/
theorem padded_roundtrip (r : Request) (hfits : ∀ n ∈ r.numbers, n.Fits)
    (hnest : nesting r.toJson.toList ≤ 127) :
    ofJson? r.toJson = .ok r ∧
      ∀ text, r.Padded text → ofJson? (String.ofList text) = .ok r := by
  have hread : ∀ text, r.Padded text → ofJson? (String.ofList text) = .ok r :=
    fun text htext => parse_of_takes (takes_record htext hfits hnest)
  refine ⟨?_, hread⟩
  have hwritten := hread _ r.padded_toJson
  rwa [String.ofList_toList] at hwritten

/-- The largest and the smallest integer as parameters, and a text with escapes. -/
def dense : Descriptor where
  name := "Dense"
  parameters := .ofList [
    ("units", .seq [.number (.int 18446744073709551615), .number (.int (-9223372036854775808))]),
    ("note", .text "\"\n")]

/-- A group that holds one layer. -/
def nested : Request where
  layers := [⟨⟨"g"⟩, none, [], [], some [⟨⟨"a"⟩, some dense, [⟨"x"⟩], [], none⟩]⟩]
  inputs := some [⟨"x"⟩]
  outputs := none

/-- A member that could not be read, only skipped. -/
def oddity : List Char := "\"\\u0076\" : [ \"\\ud800\" , 1e999 ] ".toList

/-- The added member has a name that no field has. -/
private theorem foreignMember_oddity {names : List String} (h : "v" ∉ names) :
    ForeignMember names oddity := by
  have hblank : Blank [' '] := by simp [Blank, isBlank]
  have hunit : CodeUnit ['0', '0', '7', '6'] 0x76 :=
    .mk (w := 0) (x := 0) (y := 7) (z := 6) rfl rfl rfl rfl
  -- The name is written with an escape, and still is `v`.
  have hname : Spells ['\\', 'u', '0', '0', '7', '6'] "v".toList :=
    .cons (.unit hunit rfl rfl) .nil
  -- Half a surrogate pair and a number that is too large can be skipped, but not read.
  have hstring : IsString ['\\', 'u', 'd', '8', '0', '0'] :=
    .cons (.unit (.mk rfl rfl rfl rfl)) .nil
  have hnumber : NumeralText ⟨false, ['1'], none, some (false, ['9', '9', '9'])⟩
      ['1', 'e', '9', '9', '9'] :=
    .mk ⟨by decide, by simp⟩ (by decide) .absent
      (.present (.inl rfl) .absent ⟨by decide, by simp⟩)
  have hvalue := IsValue.array (.more (.mk hblank (.scalar (.string hstring)) hblank)
    (.last (.mk hblank (.scalar (.number hnumber)) hblank)))
  exact .mk h blank_nil hname hblank (.mk hblank hvalue hblank)

/-- The text of `dense` with an extra member at its end. -/
def denseText : List Char :=
  '{' :: (commas [member "name" (quote "Dense").toList,
    member "parameterValues" (parametersText dense.parameters).toList, oddity] ++ ['}'])

/-- The text of the inner layer of `nested` with an extra member between two others. -/
def innerText : List Char :=
  '{' :: (commas [member "id" (quote "a").toList, oddity, member "kerasLayer" denseText,
    member "inputLayers" "[\"x\"]".toList, member "outputLayers" "[]".toList,
    member "children" "null".toList] ++ ['}'])

/-- The text of `nested` with these extra members and two more. -/
def nestedText : List Char :=
  let group := '{' :: (commas [member "id" (quote "g").toList, member "kerasLayer" "null".toList,
    member "inputLayers" "[]".toList, member "outputLayers" "[]".toList,
    member "children" ('[' :: (commas [innerText] ++ [']']))] ++ ['}'])
  '{' :: (commas [oddity, member "layers" ('[' :: (commas [group] ++ [']'])), oddity,
    member "inputs" "[\"x\"]".toList] ++ ['}'])

private theorem padded_nestedText : nested.Padded nestedText := by
  have hdense : dense.Padded denseText :=
    .mk (.keep _ (.keep _ (.foreign (foreignMember_oddity (by decide)) .nil)))
  have hinner : Layer.Padded ⟨⟨"a"⟩, some dense, [⟨"x"⟩], [], none⟩ innerText :=
    .mk (.present hdense) .absent
      (.mk (.keep _ (.foreign (foreignMember_oddity (by decide)) (.refl _ _))))
  refine .mk (.cons (.mk .absent (.present (.cons hinner .nil)) (.mk (.refl _ _))) .nil) ?_
  exact .mk (.foreign (foreignMember_oddity (by decide))
    (.keep _ (.foreign (foreignMember_oddity (by decide)) (.refl _ _))))

/-- A group with a node in it, read back from its text and from one with blanks and strange members.
    -/
theorem padded_roundtrip_nested :
    (∀ n ∈ nested.numbers, n.Fits) ∧ nesting nested.toJson.toList ≤ 127 ∧
      nested.Padded nestedText ∧ ofJson? nested.toJson = .ok nested ∧
      ofJson? (String.ofList nestedText) = .ok nested := by
  have hfits : ∀ n ∈ nested.numbers, n.Fits := by
    have hnumbers : nested.numbers =
        [.int 18446744073709551615, .int (-9223372036854775808)] := by rfl
    rw [hnumbers]
    simp only [List.forall_mem_cons]
    exact ⟨⟨_, rfl, by decide, by decide⟩, ⟨_, rfl, by decide, by decide⟩, nofun⟩
  -- The text is evaluated up to the digits, of which the nesting is computed.
  have hnest : nesting nested.toJson.toList ≤ 127 := by
    simp only [toJson, nested, Layer.toJsonAll_eq_map, Layer.toJson_eq, Layer.textMembers,
      endpointMember, toList_objectText, toList_arrayText, List.map_cons, List.map_nil,
      List.append_nil, NodeId.listJson, optionText, NodeId.toJson, toList_quote, member,
      Descriptor.toJson, parametersText, List.cons_append]
    decide +kernel
  have hread := padded_roundtrip nested hfits hnest
  exact ⟨hfits, hnest, padded_nestedText, hread.1, hread.2 nestedText padded_nestedText⟩

end Request

end LayerGraph
