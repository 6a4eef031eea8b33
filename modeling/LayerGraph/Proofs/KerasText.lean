import LayerGraph.Proofs.Scope

/-! # Keras programs can be read back

The text of a functional program shows everything that the program says, if the names in it are
words and no text value holds a quotation mark.

## Key results

- `Keras.programText_inj`: programs with the same text are alike
- `Graph.compile_keras_injective`: graphs with the same program have the same schedule, and the same
  nodes in it -/

namespace LayerGraph

open Text

/-- The parameters have words for names, and no text in their values holds a quotation mark. -/
def Parameters.Plain (params : Parameters) : Prop :=
  ∀ e ∈ params.entries, IsWord e.1 ∧ e.2.QuoteFree

instance (params : Parameters) : Decidable params.Plain :=
  inferInstanceAs (Decidable (∀ e ∈ params.entries, IsWord e.1 ∧ e.2.QuoteFree))

/-- The parameters have the same names in the same order, and their values are alike. -/
def Parameters.Alike (params params' : Parameters) : Prop :=
  List.Forall₂ (fun e e' => e.1 = e'.1 ∧ e.2.Alike e'.2) params.entries params'.entries

structure Binding.Plain (b : Binding) : Prop where
  name : IsWord b.name
  kind : IsWord b.kind
  parameters : b.parameters.Plain
  sources : ∀ s ∈ b.sources, IsWord s

/-- The statements are the same up to what the texts of numbers leave open. -/
structure Binding.Alike (b b' : Binding) : Prop where
  name : b.name = b'.name
  kind : b.kind = b'.kind
  parameters : b.parameters.Alike b'.parameters
  sources : b.sources = b'.sources

structure Model.Plain (m : Model) : Prop where
  bindings : ∀ b ∈ m.bindings, b.Plain
  inputs : ∀ s ∈ m.inputs, IsWord s
  outputs : ∀ s ∈ m.outputs, IsWord s

structure Model.Alike (m m' : Model) : Prop where
  bindings : List.Forall₂ Binding.Alike m.bindings m'.bindings
  inputs : m.inputs = m'.inputs
  outputs : m.outputs = m'.outputs

/-! ## Endpoints -/

section Endpoints

variable {r r' : List Char} {l l' : List String}

/-- A list of names has brackets unless it has one member. -/
private theorem Text.namesText_cases (l : List String) :
    (∃ s, l = [s]) ∨ namesText l = "[" ++ join ", " l ++ "]" := by
  rw [join_eq_intercalate]
  fun_cases namesText l with
  | case1 s => exact .inl ⟨s, rfl⟩
  | case2 => exact .inr rfl

/-- Inputs and outputs can be read back: a single name does not look like a list. -/
theorem Text.namesText_append_inj (hl : ∀ s ∈ l, IsWord s) (hl' : ∀ s ∈ l', IsWord s)
    (hr : Ended r) (hr' : Ended r')
    (h : (namesText l).toList ++ r = (namesText l').toList ++ r') :
    l = l' ∧ r = r' := by
  have hopen : IsDelimiter "[" := ⟨'[', rfl, rfl⟩
  have hformat : ListFormat ", " "" "]" := ⟨⟨',', rfl, rfl⟩, ⟨']', rfl, rfl⟩, by decide, .inl rfl⟩
  -- One name is a word and several begin with a bracket, so both lists are of the same form.
  rcases Text.namesText_cases l with ⟨s, rfl⟩ | hmany
  · rcases Text.namesText_cases l' with ⟨s', rfl⟩ | hmany'
    · obtain ⟨rfl, hrest⟩ := (hl s (by simp)).append_inj (hl' s' (by simp)) hr hr' h
      exact ⟨rfl, hrest⟩
    · rw [hmany', String.append_assoc, String.toList_append, List.append_assoc] at h
      exact absurd h ((hl s (by simp)).append_ne hopen _ _)
  · rcases Text.namesText_cases l' with ⟨s', rfl⟩ | hmany'
    · rw [hmany, String.append_assoc, String.toList_append, List.append_assoc] at h
      exact absurd h.symm ((hl' s' (by simp)).append_ne hopen _ _)
    · simp only [hmany, hmany', String.toList_append, List.append_assoc] at h
      exact join_append_inj hformat hl hl' (List.append_cancel_left h)

end Endpoints

namespace Keras

/-! ## Statements -/

variable {r r' : List Char}

/-- An argument can be read off the text that it begins. -/
private theorem argumentText_append_inj {e e' : String × Value} (he : IsWord e.1 ∧ e.2.QuoteFree)
    (he' : IsWord e'.1 ∧ e'.2.QuoteFree) (hr : Ended r) (hr' : Ended r')
    (h : (argumentText e).toList ++ r = (argumentText e').toList ++ r') :
    (e.1 = e'.1 ∧ e.2.Alike e'.2) ∧ r = r' := by
  have hequals : IsDelimiter "=" := ⟨'=', rfl, rfl⟩
  simp only [argumentText, String.toList_append, List.append_assoc] at h
  obtain ⟨hname, h⟩ := he.1.append_inj he'.1 (hequals.ended _) (hequals.ended _) h
  obtain ⟨hvalue, h⟩ := LiteralStyle.python_readable.text_append_inj he.2 he'.2 hr hr'
    (List.append_cancel_left h)
  exact ⟨⟨hname, hvalue⟩, h⟩

/-- So can all arguments up to the closing parenthesis. -/
private theorem arguments_append_inj {params params' : Parameters} (hp : params.Plain)
    (hp' : params'.Plain)
    (h : (",".intercalate (params.entries.map argumentText)).toList ++ (")".toList ++ r) =
      (",".intercalate (params'.entries.map argumentText)).toList ++ (")".toList ++ r')) :
    params.Alike params' ∧ r = r' := by
  have hclose : IsDelimiter ")" := ⟨')', rfl, rfl⟩
  have hformat : ListFormat "," "" ")" := ⟨⟨',', rfl, rfl⟩, hclose, by decide, .inl rfl⟩
  -- Names of arguments are words, so none begins like the closing parenthesis.
  have hbegin : ∀ {e : String × Value} {s : List Char}, IsWord e.1 →
      ((argumentText e).toList ++ s).head? ≠ ")".toList.head? := by
    intro e s he
    rw [argumentText, String.append_assoc, String.toList_append, List.append_assoc]
    exact he.head?_ne hclose _
  rw [← join_eq_intercalate, ← join_eq_intercalate, ← listing_eq_join, ← listing_eq_join] at h
  exact listing_append_inj hformat (fun e he s => hbegin (hp e he).1)
    (fun e he s => hbegin (hp' e he).1)
    (fun e he e' he' s s' hs hs' => argumentText_append_inj (hp e he) (hp' e' he') hs hs') h

/-- The sources of a layer can be read back. -/
private theorem sourcesText_append_inj {l l' : List String} (hl : ∀ s ∈ l, IsWord s)
    (hl' : ∀ s ∈ l', IsWord s) (h : (sourcesText l).toList ++ ("\n".toList ++ r) =
      (sourcesText l').toList ++ ("\n".toList ++ r')) : l = l' ∧ r = r' := by
  have hopen : IsDelimiter "[" := ⟨'[', rfl, rfl⟩
  have hclose : IsDelimiter ")" := ⟨')', rfl, rfl⟩
  have hformat : ListFormat "," "" "])" := ⟨⟨',', rfl, rfl⟩, ⟨']', rfl, rfl⟩, by decide, .inl rfl⟩
  -- No source, one source and many sources differ in the first two characters.
  match l, l' with
  | [], [] => exact ⟨rfl, List.append_cancel_left h⟩
  | [], [_] => simp [sourcesText] at h
  | [], _ :: _ :: _ => simp [sourcesText] at h
  | [_], [] => simp [sourcesText] at h
  | _ :: _ :: _, [] => simp [sourcesText] at h
  | [s], [s'] =>
    simp only [sourcesText, String.toList_append, List.append_assoc] at h
    obtain ⟨rfl, hrest⟩ := (hl s (by simp)).append_inj (hl' s' (by simp)) (hclose.ended _)
      (hclose.ended _) (List.append_cancel_left h)
    exact ⟨rfl, List.append_cancel_left (List.append_cancel_left hrest)⟩
  | [s], t :: u :: rest =>
    simp only [sourcesText, String.toList_append, List.append_assoc] at h
    exact absurd (List.cons.inj h).2 ((hl s (by simp)).append_ne hopen _ _)
  | t :: u :: rest, [s] =>
    simp only [sourcesText, String.toList_append, List.append_assoc] at h
    exact absurd (List.cons.inj h).2.symm ((hl' s (by simp)).append_ne hopen _ _)
  | t :: u :: rest, t' :: u' :: rest' =>
    simp only [sourcesText, String.toList_append, List.append_assoc] at h
    rw [← join_eq_intercalate, ← join_eq_intercalate] at h
    obtain ⟨heq, hrest⟩ := join_append_inj hformat hl hl' (List.append_cancel_left h)
    exact ⟨heq, List.append_cancel_left hrest⟩

/-- A statement can be read off the text that it begins. -/
private theorem bindingText_append_inj {b b' : Binding} (hb : b.Plain) (hb' : b'.Plain)
    (h : (bindingText b).toList ++ ("\n".toList ++ r) =
      (bindingText b').toList ++ ("\n".toList ++ r')) : b.Alike b' ∧ r = r' := by
  have hequals : IsDelimiter " = " := ⟨' ', rfl, rfl⟩
  have hopen : IsDelimiter "(" := ⟨'(', rfl, rfl⟩
  -- Equation lemmas are slow to make for definitions with long literals, so we unfold these.
  unfold bindingText layerText at h
  simp only [String.toList_append, List.append_assoc] at h
  -- The parts are read off one by one, each up to the delimiter behind it.
  obtain ⟨hname, h⟩ := hb.name.append_inj hb'.name (hequals.ended _) (hequals.ended _) h
  have h := List.append_cancel_left (List.append_cancel_left h)
  obtain ⟨hkind, h⟩ := hb.kind.append_inj hb'.kind (hopen.ended _) (hopen.ended _) h
  obtain ⟨hparams, h⟩ := arguments_append_inj hb.parameters hb'.parameters
    (List.append_cancel_left h)
  obtain ⟨hsources, hrest⟩ := sourcesText_append_inj hb.sources hb'.sources h
  exact ⟨⟨hname, hkind, hparams, hsources⟩, hrest⟩

/-- So can the statement of the model. -/
private theorem modelText_append_inj {ins outs ins' outs' : List String}
    (hins : ∀ s ∈ ins, IsWord s)
    (houts : ∀ s ∈ outs, IsWord s) (hins' : ∀ s ∈ ins', IsWord s) (houts' : ∀ s ∈ outs', IsWord s)
    (h : (modelText ins outs).toList ++ r = (modelText ins' outs').toList ++ r') :
    (ins = ins' ∧ outs = outs') ∧ r = r' := by
  have hcomma : IsDelimiter ", outputs=" := ⟨',', rfl, rfl⟩
  have hclose : IsDelimiter ")" := ⟨')', rfl, rfl⟩
  unfold modelText at h
  simp only [String.toList_append, List.append_assoc] at h
  obtain ⟨hinputs, h⟩ := Text.namesText_append_inj hins hins' (hcomma.ended _) (hcomma.ended _)
    (List.append_cancel_left h)
  obtain ⟨houtputs, h⟩ := Text.namesText_append_inj houts houts' (hclose.ended _)
    (hclose.ended _) (List.append_cancel_left h)
  exact ⟨⟨hinputs, houtputs⟩, List.append_cancel_left h⟩

/-- The statement of a layer does not look like that of the model, even if the layer has its
    name. -/
theorem bindingText_ne_modelText {b : Binding} (hb : b.Plain) (ins outs : List String) :
    (bindingText b).toList ++ r ≠ (modelText ins outs).toList ++ r' := by
  have hequals : IsDelimiter " = " := ⟨' ', rfl, rfl⟩
  have hmodel : IsWord "model" := by decide +kernel
  have hsplit : "model = keras.models.Model(inputs=".toList =
      "model".toList ++ (" = ".toList ++ "keras.models.Model(inputs=".toList) := by simp
  intro h
  unfold bindingText layerText modelText at h
  simp only [hsplit, String.toList_append, List.append_assoc] at h
  obtain ⟨_, h⟩ := hb.name.append_inj hmodel (hequals.ended _) (hequals.ended _) h
  simp at h

/-! ## Programs -/

/-- The lines of a program can be told apart although a text value may hold a line break. -/
theorem statements_inj {bs bs' : List Binding} {ins outs ins' outs' : List String}
    (hbs : ∀ b ∈ bs, b.Plain) (hbs' : ∀ b ∈ bs', b.Plain)
    (hins : ∀ s ∈ ins, IsWord s) (houts : ∀ s ∈ outs, IsWord s)
    (hins' : ∀ s ∈ ins', IsWord s) (houts' : ∀ s ∈ outs', IsWord s)
    (h : (ofLines ((bs.map bindingText ++ [modelText ins outs, "return model"]).map
        ("    " ++ ·))).toList =
      (ofLines ((bs'.map bindingText ++ [modelText ins' outs', "return model"]).map
        ("    " ++ ·))).toList) :
    List.Forall₂ Binding.Alike bs bs' ∧ ins = ins' ∧ outs = outs' := by
  -- The statement of the model shows in both programs that there are no more layers.
  induction bs generalizing bs' with
  | nil =>
    cases bs' with
    | nil =>
      simp only [List.map_nil, List.nil_append, List.map_cons, ofLines_cons, String.toList_append,
        List.append_assoc] at h
      obtain ⟨hends, _⟩ := modelText_append_inj hins houts hins' houts'
        (List.append_cancel_left h)
      exact ⟨.nil, hends⟩
    | cons b' bs' =>
      simp only [List.map_nil, List.nil_append, List.map_cons, List.cons_append, ofLines_cons,
        String.toList_append, List.append_assoc] at h
      exact absurd (List.append_cancel_left h).symm
        (bindingText_ne_modelText (hbs' b' List.mem_cons_self) ins outs)
  | cons b bs ih =>
    cases bs' with
    | nil =>
      simp only [List.map_nil, List.nil_append, List.map_cons, List.cons_append, ofLines_cons,
        String.toList_append, List.append_assoc] at h
      exact absurd (List.append_cancel_left h)
        (bindingText_ne_modelText (hbs b List.mem_cons_self) ins' outs')
    | cons b' bs' =>
      simp only [List.map_cons, List.cons_append, ofLines_cons, String.toList_append,
        List.append_assoc] at h
      -- Both programs go on with a layer: it is read off, and the rest is shorter.
      obtain ⟨hhead, hrest⟩ := bindingText_append_inj (hbs b List.mem_cons_self)
        (hbs' b' List.mem_cons_self) (List.append_cancel_left h)
      obtain ⟨htail, hends⟩ := ih (fun x hx => hbs x (List.mem_cons_of_mem _ hx))
        (fun x hx => hbs' x (List.mem_cons_of_mem _ hx)) hrest
      exact ⟨.cons hhead htail, hends⟩

/-- Programs with the same text are alike. -/
theorem programText_inj {o : Options} {m m' : Model} (hm : m.Plain) (hm' : m'.Plain)
    (h : Target.keras.programText o m = Target.keras.programText o m') : m.Alike m' := by
  have hlines := congrArg String.toList h
  rw [Target.programText, Target.programText, Target.functionText, functionText, functionText,
    ofLines_append, ofLines_append, String.toList_append, String.toList_append, List.append_assoc,
    List.append_assoc] at hlines
  obtain ⟨hbindings, hinputs, houtputs⟩ := statements_inj hm.bindings hm'.bindings hm.inputs
    hm.outputs hm'.inputs hm'.outputs (List.append_cancel_left hlines)
  exact ⟨hbindings, hinputs, houtputs⟩

end Keras

/-! ## Graphs -/

/-- The nodes are the same as far as a program tells, which says nothing about targets. -/
structure Node.Alike (n n' : Node) : Prop where
  kind : n.kind = n'.kind
  parameters : n.parameters.Alike n'.parameters
  sources : n.sources = n'.sources

namespace Graph

variable {g g' : Graph}

/-- Ids, kinds and names of parameters are words, of which only ids may be empty, and no text in a
    parameter holds a quotation mark. -/
structure Plain (g : Graph) : Prop where
  ids : ∀ id ∈ g.ids, id.text.toList.all isWordChar = true
  kinds : ∀ id n, g.get? id = some n → IsWord n.kind
  parameters : ∀ id n, g.get? id = some n → n.parameters.Plain

/-- Plainness can be checked node by node. -/
private theorem plain_iff (g : Graph) :
    g.Plain ↔ ∀ e ∈ g.nodes.entries, e.1.text.toList.all isWordChar = true ∧
      IsWord e.2.kind ∧ e.2.parameters.Plain := by
  constructor
  · intro hg e he
    have hget : g.get? e.1 = some e.2 := (g.nodes.get?_eq_some_iff e.1 e.2).mpr he
    exact ⟨hg.ids e.1 (List.mem_map_of_mem he), hg.kinds _ _ hget, hg.parameters _ _ hget⟩
  · intro h
    have hget : ∀ id n, g.get? id = some n → (id, n) ∈ g.nodes.entries :=
      fun id n => (g.nodes.get?_eq_some_iff id n).mp
    refine ⟨?_, fun id n hn => (h _ (hget id n hn)).2.1, fun id n hn => (h _ (hget id n hn)).2.2⟩
    intro id hid
    obtain ⟨n, hn⟩ := (g.mem_ids_iff id).mp hid
    exact (h _ (hget id n hn)).1

/-- Names of nodes are words. -/
private theorem Plain.isWord_nameOf (hg : g.Plain) {id : NodeId} (hid : id ∈ g.ids) :
    IsWord (g.nameOf id) := by
  have hstem : ∀ role : Role, IsWord (role.stem ++ "_") := by
    intro role
    cases role <;> decide +kernel
  obtain ⟨role, hrole⟩ := g.exists_stem_of_nameOf id
  rw [hrole]
  constructor
  · intro hempty
    exact (hstem role).ne_empty (String.append_eq_empty_iff.mp hempty).1
  · rw [String.toList_append, List.all_append, (hstem role).wordChars, hg.ids id hid]
    rfl

/-- The statements of a plain graph are plain. -/
private theorem plain_bindingOf (hg : g.Plain) (hwf : g.WellFormed) {id : NodeId}
    (hid : id ∈ g.ids) : (g.bindingOf id).Plain := by
  obtain ⟨n, hn⟩ := (g.mem_ids_iff id).mp hid
  refine ⟨hg.isWord_nameOf hid, ?_, ?_, ?_⟩
  · rw [bindingOf, kindOf_of_get? hn]
    exact hg.kinds id n hn
  · rw [bindingOf, parametersOf_of_get? hn]
    exact hg.parameters id n hn
  · intro name hname
    obtain ⟨s, hs, rfl⟩ := List.mem_map.mp hname
    exact hg.isWord_nameOf (hwf.sourcesDeclared id s hs)

/-- The program of a graph that is plain is plain. -/
theorem plain_modelOf (hg : g.Plain) (hwf : g.WellFormed) {order : List NodeId}
    (hids : ∀ id ∈ order, id ∈ g.ids) : (g.modelOf order).Plain := by
  refine ⟨?_, ?_, ?_⟩
  · intro b hb
    obtain ⟨id, hid, rfl⟩ := List.mem_map.mp hb
    exact plain_bindingOf hg hwf (hids id (List.mem_filter.mp hid).1)
  · intro name hname
    obtain ⟨i, hi, rfl⟩ := List.mem_map.mp hname
    exact hg.isWord_nameOf (hwf.mem_ids_of_mem_inputs hi)
  · intro name hname
    obtain ⟨output, _, hname⟩ := List.mem_flatMap.mp hname
    obtain ⟨s, hs, rfl⟩ := List.mem_map.mp hname
    exact hg.isWord_nameOf (hwf.sourcesDeclared output s hs)

/-- Lists of names tell the lists of nodes. -/
private theorem map_nameOf_injective {l l' : List NodeId} (h : l.map g.nameOf = l'.map g'.nameOf) :
    l = l' := by
  rw [← List.forall₂_eq_eq_eq, List.forall₂_map_left_iff, List.forall₂_map_right_iff] at h
  rw [← List.forall₂_eq_eq_eq]
  exact h.imp fun _ _ => nameOf_injective

/-- A node with statements that are alike is alike in both graphs. -/
theorem alike_of_bindingOf {id : NodeId} (hid : id ∈ g.ids) (hid' : id ∈ g'.ids)
    (h : (g.bindingOf id).Alike (g'.bindingOf id)) :
    ∃ n n', g.get? id = some n ∧ g'.get? id = some n' ∧ n.Alike n' := by
  obtain ⟨n, hn⟩ := (g.mem_ids_iff id).mp hid
  obtain ⟨n', hn'⟩ := (g'.mem_ids_iff id).mp hid'
  obtain ⟨_, hkind, hparams, hsources⟩ := h
  simp only [bindingOf, kindOf_of_get? hn, kindOf_of_get? hn', parametersOf_of_get? hn,
    parametersOf_of_get? hn', sourcesOf_of_get? hn, sourcesOf_of_get? hn'] at hkind hparams hsources
  exact ⟨n, n', hn, hn', hkind, hparams, map_nameOf_injective hsources⟩

/-- The schedules behind statements that are alike are the same. -/
theorem schedule_eq_of_alike {order order' : List NodeId}
    (h : List.Forall₂ Binding.Alike (order.map g.bindingOf) (order'.map g'.bindingOf)) :
    order = order' := by
  rw [List.forall₂_map_left_iff, List.forall₂_map_right_iff] at h
  rw [← List.forall₂_eq_eq_eq]
  exact h.imp fun _ _ halike => nameOf_injective halike.name

/-- Graphs with the same program have the same schedule.  The nodes in it have the same kinds,
    parameters and sources in both graphs, and the graphs take the same inputs and return the same
    results. -/
theorem compile_keras_injective (hg : g.Built) (hg' : g'.Built) {o : Options}
    (htarget : o.target = .keras) (hstyle : o.style = .functional) (hplain : g.Plain)
    (hplain' : g'.Plain) {code : String} (h : (g.compile o).result = .ok code)
    (h' : (g'.compile o).result = .ok code) :
    (∃ order, g.schedule.result = .ok order ∧ g'.schedule.result = .ok order ∧
      ∀ id ∈ order, ∃ n n', g.get? id = some n ∧ g'.get? id = some n' ∧ n.Alike n') ∧
    g.inputs = g'.inputs ∧
    g.outputs.flatMap g.sourcesOf = g'.outputs.flatMap g'.sourcesOf := by
  have hwf := hg.wellFormed
  have hwf' := hg'.wellFormed
  obtain ⟨order, hschedule, _, hcode⟩ := (compile_functional_eq_ok_iff hwf hstyle code).mp h
  obtain ⟨order', hschedule', _, hcode'⟩ := (compile_functional_eq_ok_iff hwf' hstyle code).mp h'
  have hids := mem_ids_of_mem_schedule hwf hschedule
  have hids' := mem_ids_of_mem_schedule hwf' hschedule'
  have halike : (g.modelOf order).Alike (g'.modelOf order') := by
    rw [htarget] at hcode hcode'
    exact Keras.programText_inj (plain_modelOf hplain hwf hids) (plain_modelOf hplain' hwf' hids')
      (hcode.symm.trans hcode')
  have hbindings := halike.bindings
  rw [modelOf_bindings_of_schedule hwf hschedule, modelOf_bindings_of_schedule hwf' hschedule']
    at hbindings
  -- The names that are bound tell the schedules, which are therefore equal.
  obtain rfl := schedule_eq_of_alike hbindings
  refine ⟨⟨order, hschedule, hschedule', ?_⟩, ?_, ?_⟩
  · intro id hid
    rw [List.forall₂_map_left_iff, List.forall₂_map_right_iff, List.forall₂_same] at hbindings
    exact alike_of_bindingOf (hids id hid) (hids' id hid) (hbindings id hid)
  · exact map_nameOf_injective halike.inputs
  · have heq := halike.outputs
    rw [modelOf, modelOf, ← List.map_flatMap, ← List.map_flatMap] at heq
    exact map_nameOf_injective heq

/-- A text value that looks like the end of a statement, and a nested sequence. -/
def trickyParameters : Parameters :=
  ⟨[("units", .ofInt 3), ("name", .text "x])\n(y"), ("axes", .seq [.ofInt (-1), .seq []])],
    by decide⟩

/-- One output with two sources. -/
def joined : Graph where
  nodes := ⟨[
    (⟨"a"⟩, ⟨"Input", ∅, [], [⟨"d"⟩, ⟨"b"⟩]⟩),
    (⟨"d"⟩, ⟨"Dense", trickyParameters, [⟨"a"⟩], [⟨"b"⟩, ⟨"y"⟩]⟩),
    (⟨"b"⟩, ⟨"Concatenate", ∅, [⟨"a"⟩, ⟨"d"⟩], [⟨"y"⟩]⟩),
    (⟨"y"⟩, ⟨"Output", ∅, [⟨"b"⟩, ⟨"d"⟩], []⟩)], by decide⟩
  inputs := [⟨"a"⟩]
  outputs := [⟨"y"⟩]

/-- The same sources for two outputs, in another order of declaration, and a layer that no input
    leads to. -/
def parted : Graph where
  nodes := ⟨[
    (⟨"y"⟩, ⟨"Output", ∅, [⟨"b"⟩], []⟩),
    (⟨"z"⟩, ⟨"Output", ∅, [⟨"d"⟩], []⟩),
    (⟨"u"⟩, ⟨"Dense", ∅, [⟨"u"⟩], [⟨"u"⟩]⟩),
    (⟨"d"⟩, ⟨"Dense", trickyParameters, [⟨"a"⟩], [⟨"z"⟩, ⟨"b"⟩]⟩),
    (⟨"b"⟩, ⟨"Concatenate", ∅, [⟨"a"⟩, ⟨"d"⟩], [⟨"y"⟩]⟩),
    (⟨"a"⟩, ⟨"Input", ∅, [], [⟨"d"⟩, ⟨"b"⟩]⟩)], by decide⟩
  inputs := [⟨"a"⟩]
  outputs := [⟨"y"⟩, ⟨"z"⟩]

private theorem joined_built : joined.Built := .descriptions [
  ⟨⟨"a"⟩, "Input", ∅, [], none⟩,
  ⟨⟨"d"⟩, "Dense", trickyParameters, [⟨"a"⟩], none⟩,
  ⟨⟨"b"⟩, "Concatenate", ∅, [⟨"a"⟩, ⟨"d"⟩], none⟩,
  ⟨⟨"y"⟩, "Output", ∅, [⟨"b"⟩, ⟨"d"⟩], none⟩] rfl

private theorem parted_built : parted.Built := .descriptions [
  ⟨⟨"y"⟩, "Output", ∅, [⟨"b"⟩], none⟩,
  ⟨⟨"z"⟩, "Output", ∅, [⟨"d"⟩], none⟩,
  ⟨⟨"u"⟩, "Dense", ∅, [⟨"u"⟩], none⟩,
  ⟨⟨"d"⟩, "Dense", trickyParameters, [⟨"a"⟩], none⟩,
  ⟨⟨"b"⟩, "Concatenate", ∅, [⟨"a"⟩, ⟨"d"⟩], none⟩,
  ⟨⟨"a"⟩, "Input", ∅, [], none⟩] rfl

private theorem joined_plain : joined.Plain := by
  rw [plain_iff]
  simp only [joined, List.forall_mem_cons]
  refine ⟨?_, ?_, ?_, ?_, List.forall_mem_nil _⟩ <;> decide +kernel

private theorem parted_plain : parted.Plain := by
  rw [plain_iff]
  simp only [parted, List.forall_mem_cons]
  refine ⟨?_, ?_, ?_, ?_, ?_, ?_, List.forall_mem_nil _⟩ <;> decide +kernel

/-- Graphs with the same program, although the sources are shared out among other outputs. -/
theorem compile_keras_injective_parted :
    joined.Built ∧ parted.Built ∧ joined.Plain ∧ parted.Plain ∧
      (∃ code, (joined.compile {}).result = .ok code ∧ (parted.compile {}).result = .ok code) ∧
      (∃ n n', joined.get? ⟨"d"⟩ = some n ∧ parted.get? ⟨"d"⟩ = some n' ∧ n.Alike n') ∧
      joined.outputs.flatMap joined.sourcesOf = parted.outputs.flatMap parted.sourcesOf := by
  have hschedule : joined.schedule.result = .ok [⟨"a"⟩, ⟨"d"⟩, ⟨"b"⟩] := by cbv
  have hschedule' : parted.schedule.result = .ok [⟨"a"⟩, ⟨"d"⟩, ⟨"b"⟩] := by cbv
  have hcompile : (joined.compile {}).result = .ok (Target.keras.programText {}
      (joined.modelOf [⟨"a"⟩, ⟨"d"⟩, ⟨"b"⟩])) :=
    (compile_functional_eq_ok_iff joined_built.wellFormed rfl _).mpr
      ⟨_, hschedule, by decide, rfl⟩
  have hcompile' : (parted.compile {}).result = .ok (Target.keras.programText {}
      (joined.modelOf [⟨"a"⟩, ⟨"d"⟩, ⟨"b"⟩])) :=
    (compile_functional_eq_ok_iff parted_built.wellFormed rfl _).mpr
      ⟨_, hschedule', by decide, rfl⟩
  obtain ⟨⟨order', horder, _, hnodes⟩, _, houtputs⟩ := compile_keras_injective joined_built
    parted_built rfl rfl joined_plain parted_plain hcompile hcompile'
  cases hschedule.symm.trans horder
  exact ⟨joined_built, parted_built, joined_plain, parted_plain, ⟨_, hcompile, hcompile'⟩,
    hnodes ⟨"d"⟩ (by decide), houtputs⟩

end Graph

end LayerGraph
