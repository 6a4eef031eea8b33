import LayerGraph.Proofs.Json.Values
import LayerGraph.Proofs.RespelledReading
import LayerGraph.Request.Json

/-! # Integer ids

An integer that 64 bits can hold is the same id whether it is written as a number or as a string.
So the ids of a request may be written either way, each on its own, and nothing else changes: not
the request, and not the fault where there is none.

## Key results

- `NodeId.ofJson?_integerText`: an integer id is read from both of its forms
- `NodeId.ofNumber_int_inj`: different integers are different ids
- `Layer.readsAt_reader`: a layer is read in lockstep from two spellings, by induction on the depth
- `Request.ofJson?_respelled`: two spellings of a request are parsed the same -/

namespace LayerGraph

open Json Request

/-! ## One id -/

namespace NodeId

/-- An integer is read as a scalar that stands for its id. -/
theorem yields_scalar_integerText {k : Int} {v rest : List Char} (hk : FitsWord k)
    (h : IntegerText k v) (hrest : Ended rest) :
    ∃ a, NodeId.ofValue? a = some (.ofNumber (.int k)) ∧ Yields (scalar (v ++ rest)) a rest := by
  cases h with
  | number =>
    -- As a number it is read digit by digit, and makes an id by being written again.
    obtain ⟨n, htext, hvalue⟩ := hk.exists_numeral
    exact ⟨.number (.int k), rfl, takes_scalar_number htext hvalue rest hrest⟩
  | @string spelled h =>
    -- As a string it is the text of the id as it stands.
    refine ⟨.text (toString k), ?_, ?_⟩
    · rw [NodeId.ofValue?, NodeId.ofNumber, Number.text, integerText_eq_toString]
    · rw [List.cons_append, List.append_assoc]
      have hstring : Yields (stringAfter '"' (spelled ++ '"' :: rest)) (toString k) rest :=
        (yields_stringBody h rest).bind fun hlt => ⟨Nat.lt_succ_of_lt hlt, rfl⟩
      exact hstring.bind fun hlt => ⟨hlt, rfl⟩

/-- The reader of ids takes an integer in both of its forms. -/
theorem yields_reader_integerText {k : Int} {v blanks rest : List Char} (hk : FitsWord k)
    (h : IntegerText k v) (depth : Nat) (hblanks : Blank blanks) (hrest : Ended rest) :
    Yields (NodeId.reader depth (blanks ++ (v ++ rest))) (.ofNumber (.int k)) rest := by
  obtain ⟨a, hid, hscalar⟩ := yields_scalar_integerText hk h hrest
  -- Behind blanks a scalar is read as it is, since it begins with no bracket.
  have hany : Yields (anyValue depth (blanks ++ (v ++ rest))) (some a) rest := by
    obtain ⟨c, cs, rfl, hblank, hsquare, hcurly, _⟩ := (h.isScalar hk).eq_cons
    rw [anyValue]
    apply yields_afterBlanks hblanks hblank
    have hsome : Yields (scalar.map some (c :: cs ++ rest)) (some a) rest :=
      hscalar.bind fun hlt => ⟨hlt, rfl⟩
    simpa [hsquare, hcurly] using hsome
  apply hany.bind
  intro hlt
  exact ⟨hlt, by simp only [Option.bind_some, hid]; rfl⟩

/-- An integer gives one id, whether it is written as a number or as a string. -/
theorem ofJson?_integerText {k : Int} {v : List Char} (hk : FitsWord k) (h : IntegerText k v) :
    NodeId.ofJson? (String.ofList v) = .ok (.ofNumber (.int k)) :=
  parse_of_takes fun _ hrest => yields_reader_integerText hk h maxDepth blank_nil hrest

private theorem text_ofNumber_int (k : Int) : (NodeId.ofNumber (.int k)).text = toString k := by
  rw [NodeId.ofNumber, Number.text, integerText_eq_toString]

/-- Different integers are different ids: the text can be read as one number only. -/
theorem ofNumber_int_inj {m n : Int} (hm : FitsWord m) (hn : FitsWord n)
    (h : NodeId.ofNumber (.int m) = .ofNumber (.int n)) : m = n := by
  have htext : toString m = toString n := by
    rw [← text_ofNumber_int, ← text_ofNumber_int, h]
  obtain ⟨x, hx, hxm⟩ := hm.exists_numeral
  obtain ⟨y, hy, hyn⟩ := hn.exists_numeral
  -- Both numerals have the same text now, and the reader finds only one in it.
  rw [htext] at hx
  have hxy : x = y := by
    obtain ⟨_, heq⟩ := yields_numeral hx ended_nil
    obtain ⟨_, heq'⟩ := yields_numeral hy ended_nil
    rw [heq] at heq'
    cases heq'
    rfl
  rw [hxy, hyn] at hxm
  cases hxm
  rfl

/-- A signed integer of 64 bits has the id of its value. -/
theorem ofInt64_eq_ofNumber (k : Int64) : NodeId.ofInt64 k = .ofNumber (.int k.toInt) := by
  rw [NodeId.ofInt64, NodeId.ofNumber, Number.text, integerText_eq_toString]
  rfl

end NodeId

/-- Machine integers fit in a word. -/
private theorem Request.fitsWord_toInt (k : Int64) : FitsWord k.toInt := by
  have hlow := k.le_toInt
  have hhigh := k.toInt_lt
  exact ⟨hlow, by omega⟩

/-! ## The readers of a request -/

/-- At the place of an id there is an integer in one of its forms, or something that is the same in
    both texts. -/
theorem Request.Respelled.id_cases {v w : List Char} (h : Respelled .id v w) :
    (∃ k, FitsWord k ∧ IntegerText k v ∧ IntegerText k w) ∨ Respelled .other v w := by
  cases h with
  | scalar h => exact .inr (.scalar h)
  | id hk hv hw => exact .inl ⟨_, hk, hv, hw⟩
  | array h => exact .inr (.array h)
  | object h => exact .inr (.object h)

/-- Ids are read alike in both spellings, … -/
private theorem NodeId.readsAt_reader (depth : Nat) : ReadsAt (NodeId.reader depth) .id := by
  intro v w h
  rcases h.id_cases with ⟨k, hk, hv, hw⟩ | h
  · intro blanks rest rest' hblanks hrest hrest'
    exact .taken (yields_reader_integerText hk hv depth hblanks hrest)
      (yields_reader_integerText hk hw depth hblanks hrest')
  · exact (readsAt_anyValue depth v w h).check _

private theorem Json.mem_inside {α : Type} {depth : Nat} {item : Nat → α} {a : α}
    (h : a ∈ inside depth item) : ∃ d, a = item d := by
  cases depth with
  | zero => cases h
  | succ d => exact ⟨d, (Option.some.inj h).symm⟩

/-- … so are lists of ids, … -/
private theorem NodeId.readsAt_listReader (depth : Nat) :
    ReadsAt (NodeId.listReader depth) .ids := by
  apply readsAt_array (by decide)
  intro read hread i
  obtain ⟨d, rfl⟩ := mem_inside hread
  exact NodeId.readsAt_reader d

/-- … parameters, in which nothing is respelled, … -/
private theorem Json.readsAt_parameters (depth : Nat) : ReadsAt (parameters depth) .other := by
  apply readsAt_object (by decide)
  intro member hmember params name read heq
  obtain ⟨d, rfl⟩ := mem_inside hmember
  cases heq
  exact ((readsAt_anyValue d).check id).map _

/-- … descriptors, … -/
private theorem Descriptor.readsAt_reader (depth : Nat) :
    ReadsAt (Descriptor.reader depth) .descriptor := by
  apply readsAt_record (by decide)
  intro fields hfields
  obtain ⟨d, rfl⟩ := mem_inside hfields
  exact .cons ⟨rfl, (readsAt_string (by decide)).map _⟩
    (.cons ⟨rfl, (readsAt_parameters d).map _⟩ .nil)

/-- The fields of a layer are read in lockstep if the layers inside of it are. -/
theorem Layer.fieldsMatch (depth : Nat) {child : Option (Reader Layer)}
    (hchild : ∀ read ∈ child, ReadsAt read .layer) :
    FieldsMatch (Layer.fields depth child) Place.layer.fields := by
  have hids := NodeId.readsAt_listReader depth
  have hdescriptor : ReadsAt (nullable (Descriptor.reader depth)) .descriptor :=
    readsAt_nullable (by decide) (Descriptor.readsAt_reader depth)
  have hchildren : ReadsAt (nullable (array child)) .layers :=
    readsAt_nullable (by decide) (readsAt_array (by decide) fun read hread _ => hchild read hread)
  exact .cons ⟨rfl, (NodeId.readsAt_reader depth).map _⟩ (.cons ⟨rfl, hdescriptor.map _⟩
    (.cons ⟨rfl, hids.map _⟩ (.cons ⟨rfl, hids.map _⟩ (.cons ⟨rfl, hchildren.map _⟩ .nil))))

/-- … layers, by induction on how deep they may be nested, … -/
theorem Layer.readsAt_reader (depth : Nat) : ReadsAt (Layer.reader depth) .layer := by
  induction depth using Nat.strongRecOn with
  | ind depth ih =>
    rw [Layer.reader.eq_def]
    apply readsAt_record (by decide)
    intro fields hfields
    -- The layers of a group are two brackets further down.
    rcases depth with _ | _ | depth
    · cases hfields
    · cases hfields
      apply Layer.fieldsMatch
      intro read hread
      cases hread
    · cases hfields
      apply Layer.fieldsMatch
      intro read hread
      cases hread
      exact ih depth (by omega)

/-- … and requests. -/
private theorem Request.readsAt_record_fields :
    ReadsAt (record (inside maxDepth Request.fields) ⟨[], none, none⟩) .request := by
  apply readsAt_record (by decide)
  intro fields hfields
  obtain ⟨d, rfl⟩ := mem_inside hfields
  have hlayers : ReadsAt (array (inside d Layer.reader)) .layers := by
    apply readsAt_array (by decide)
    intro read hread i
    obtain ⟨e, rfl⟩ := mem_inside hread
    exact Layer.readsAt_reader e
  have hids : ReadsAt (nullable (NodeId.listReader d)) .ids :=
    readsAt_nullable (by decide) (NodeId.readsAt_listReader d)
  exact .cons ⟨rfl, hlayers.map _⟩ (.cons ⟨rfl, hids.map _⟩ (.cons ⟨rfl, hids.map _⟩ .nil))

/-- Two spellings of a request are the same request, or are refused with the same fault. -/
theorem Request.ofJson?_respelled {t u : List Char} (h : RespelledText .request t u) :
    Request.ofJson? (String.ofList t) = Request.ofJson? (String.ofList u) := by
  cases h with
  | mk hbefore h hafter =>
    exact parse_eq_of_agrees (Request.readsAt_record_fields _ _ h) hbefore hafter

/-! ## The decimal of an integer in quotes -/

/-- The characters of numbers need no escape. -/
private theorem Json.plain_of_isNumberChar {c : Char} (h : Text.isNumberChar c = true) :
    Plain c := by
  have hne : ∀ d, Text.isNumberChar d = false → c ≠ d := by
    rintro d hd rfl
    rw [h] at hd
    cases hd
  refine ⟨hne '"' (by decide), hne '\\' (by decide), ?_⟩
  simp only [Text.isNumberChar, Bool.or_eq_true, decide_eq_true_eq] at h
  rcases h with h | h
  · simp only [Char.isDigit, Bool.and_eq_true, decide_eq_true_eq, UInt32.le_iff_toNat_le] at h
    exact Nat.le_trans (by decide) h.1
  · have hall : ∀ d ∈ ['-', '+', '.', 'e'], 0x20 ≤ d.toNat := by simp
    exact hall c h

/-- Plain characters spell themselves. -/
theorem Json.spells_of_plain {cs : List Char} (h : ∀ c ∈ cs, Plain c) : Spells cs cs := by
  induction cs with
  | nil => exact .nil
  | cons c cs ih =>
    rw [List.forall_mem_cons] at h
    exact .cons (.plain h.1) (ih h.2)

/-- In quotation marks an integer is one of its spellings. -/
private theorem Request.integerText_quoted (k : Int) :
    IntegerText k ("\"" ++ toString k ++ "\"").toList := by
  -- There is nothing to escape in a decimal, so it spells itself.
  have hspells : Spells (toString k).toList (toString k).toList := by
    apply spells_of_plain
    intro c hc
    rw [← NodeId.text_ofNumber_int] at hc
    exact plain_of_isNumberChar (Number.isNumberChar_of_mem_text (.int k) c hc)
  have htext := IntegerText.string hspells
  simpa using htext

/-- An integer of 64 bits, signed or unsigned, is the same id as a number and as a string, and its
    decimal is the text of the id.  For signed integers it is the id that is made of the integer.
    Different integers are different ids.  In a request, integer ids may be written either way. -/
theorem Request.integer_forms_agree :
    (∀ n : Int, FitsWord n →
      NodeId.ofJson? (toString n) = .ok (.ofNumber (.int n)) ∧
      NodeId.ofJson? ("\"" ++ toString n ++ "\"") = .ok (.ofNumber (.int n)) ∧
      NodeId.ofNumber (.int n) = ⟨toString n⟩) ∧
    (∀ k : Int64, FitsWord k.toInt ∧ NodeId.ofJson? (toString k) = .ok (.ofInt64 k) ∧
      NodeId.ofJson? ("\"" ++ toString k ++ "\"") = .ok (.ofInt64 k)) ∧
    (∀ m n : Int, FitsWord m → FitsWord n → ∀ s t, IntegerText m s → IntegerText n t →
      (NodeId.ofJson? (String.ofList s) = NodeId.ofJson? (String.ofList t) ↔ m = n)) ∧
    ∀ t u, RespelledText .request t u →
      Request.ofJson? (String.ofList t) = Request.ofJson? (String.ofList u) := by
  have hnumber : ∀ n : Int, FitsWord n →
      NodeId.ofJson? (toString n) = .ok (.ofNumber (.int n)) := by
    intro n hn
    have hread := NodeId.ofJson?_integerText hn .number
    rwa [String.ofList_toList] at hread
  have hquoted : ∀ n : Int, FitsWord n →
      NodeId.ofJson? ("\"" ++ toString n ++ "\"") = .ok (.ofNumber (.int n)) := by
    intro n hn
    have hread := NodeId.ofJson?_integerText hn (integerText_quoted n)
    rwa [String.ofList_toList] at hread
  -- The same two spellings serve for machine integers, and two integers have different ids.
  refine ⟨fun n hn => ⟨hnumber n hn, hquoted n hn, ?_⟩, fun k => ?_,
    fun m n hm hn s t hs ht => ?_, fun t u h => Request.ofJson?_respelled h⟩
  · rw [← NodeId.text_ofNumber_int]
  · rw [NodeId.ofInt64_eq_ofNumber]
    exact ⟨fitsWord_toInt k, hnumber _ (fitsWord_toInt k), hquoted _ (fitsWord_toInt k)⟩
  · rw [NodeId.ofJson?_integerText hm hs, NodeId.ofJson?_integerText hn ht]
    constructor
    · intro h
      exact NodeId.ofNumber_int_inj hm hn (Except.ok.inj h)
    · rintro rfl
      rfl

/-- A request with a layer that is written as an array, with a place for three ids. -/
def Request.sampleText (a b c : List Char) : List Char :=
  '{' :: ("\"layers\": [[".toList ++ a ++ ", null, [ ], [".toList ++ b ++
    "]]], \"inputs\": [".toList ++ c ++ "]".toList ++ ['}'])

private theorem Request.respelledText_sampleText {k l : Int} (hk : FitsWord k) (hl : FitsWord l)
    {a a' b b' c c' : List Char} (ha : IntegerText k a) (ha' : IntegerText k a')
    (hb : IntegerText l b) (hb' : IntegerText l b') (hc : IntegerText k c)
    (hc' : IntegerText k c') : RespelledText .request (sampleText a b c) (sampleText a' b' c') := by
  have hblank : Blank [' '] := by simp [Blank, isBlank]
  have hname : ∀ name : String, name.toList.flatMap escape = name.toList →
      Spells name.toList name.toList := by
    intro name hplain
    have h := spells_escape name.toList
    rwa [hplain] at h
  -- A list of one id.
  have hids : ∀ {n : Int} {v w : List Char}, FitsWord n → IntegerText n v → IntegerText n w →
      Respelled .ids ('[' :: (v ++ [']'])) ('[' :: (w ++ [']'])) := by
    intro n v w hn hv hw
    have h := Respelled.array (p := .ids)
      (.items (.last (.mk blank_nil (.id hn hv hw) blank_nil)))
    simpa using h
  -- A layer that is written as an array, with its id and a source respelled.
  have hlayer : Respelled .layer
      ('[' :: (a ++ ", null, [ ], [".toList ++ b ++ "]]".toList))
      ('[' :: (a' ++ ", null, [ ], [".toList ++ b' ++ "]]".toList)) := by
    have h := Respelled.array (p := .layer) (.items
      (.more (.mk blank_nil (.id hk ha ha') blank_nil)
        (.more (.mk hblank (.scalar .nullWord) blank_nil)
          (.more (.mk hblank (.array (.empty hblank)) blank_nil)
            (.last (.mk hblank (hids hl hb hb') blank_nil))))))
    simpa using h
  have hlayers : Respelled .layers
      ("[[".toList ++ a ++ ", null, [ ], [".toList ++ b ++ "]]]".toList)
      ("[[".toList ++ a' ++ ", null, [ ], [".toList ++ b' ++ "]]]".toList) := by
    have h := Respelled.array (p := .layers) (.items (.last (.mk blank_nil hlayer blank_nil)))
    simpa using h
  have hlayersName := hname "layers" (by decide)
  have hinputsName := hname "inputs" (by decide)
  -- The request is an object with two members, and its inputs are respelled too.
  have h := RespelledText.mk blank_nil (Respelled.object (p := .request) (.items
    (.more blank_nil hlayersName.isString (leadsTo_of_spells hlayersName _) blank_nil
      (.mk hblank hlayers blank_nil)
      (.last hblank hinputsName.isString (leadsTo_of_spells hinputsName _) blank_nil
        (.mk hblank (hids hk hc hc') blank_nil))))) blank_nil
  simpa [sampleText] using h

/-- The largest and the smallest integer, in all places and in both forms. -/
theorem Request.integer_forms_agree_extremes :
    FitsWord 18446744073709551615 ∧ FitsWord (-9223372036854775808) ∧
      NodeId.ofJson? "18446744073709551615" = .ok ⟨"18446744073709551615"⟩ ∧
      NodeId.ofJson? "\"18446744073709551615\"" = .ok ⟨"18446744073709551615"⟩ ∧
      NodeId.ofJson? "-9223372036854775808" = .ok ⟨"-9223372036854775808"⟩ ∧
      NodeId.ofJson? "\"-9223372036854775808\"" = .ok ⟨"-9223372036854775808"⟩ ∧
      NodeId.ofInt64 Int64.minValue = ⟨"-9223372036854775808"⟩ ∧
      NodeId.ofJson? "18446744073709551615" ≠ NodeId.ofJson? "\"-9223372036854775808\"" ∧
      Request.ofJson? (String.ofList (sampleText "18446744073709551615".toList
          "\"-9223372036854775808\"".toList "\"18446744073709551615\"".toList)) =
        Request.ofJson? (String.ofList (sampleText "\"18446744073709551615\"".toList
          "-9223372036854775808".toList "18446744073709551615".toList)) ∧
      (Request.ofJson? (String.ofList (sampleText "18446744073709551615".toList
        "\"-9223372036854775808\"".toList "\"18446744073709551615\"".toList))).toOption.isSome := by
  obtain ⟨hforms, hsigned, hdistinct, hrequests⟩ := Request.integer_forms_agree
  have hlarge : FitsWord 18446744073709551615 := ⟨by decide, by decide⟩
  have hsmall : FitsWord (-9223372036854775808) := ⟨by decide, by decide⟩
  obtain ⟨hnumber, hstring, htext⟩ := hforms _ hlarge
  obtain ⟨hnumber', hstring', htext'⟩ := hforms _ hsmall
  rw [htext] at hnumber hstring
  rw [htext'] at hnumber' hstring'
  have hminimum : NodeId.ofInt64 Int64.minValue = ⟨"-9223372036854775808"⟩ :=
    Except.ok.inj ((hsigned Int64.minValue).2.1.symm.trans hnumber')
  refine ⟨hlarge, hsmall, hnumber, hstring, hnumber', hstring', hminimum, ?_, ?_,
    by decide +kernel⟩
  · intro h
    have heq := (hdistinct _ _ hlarge hsmall _ _ .number (integerText_quoted _)).mp h
    exact absurd heq (by decide)
  · exact hrequests _ _ (respelledText_sampleText hlarge hsmall .number (integerText_quoted _)
      (integerText_quoted _) .number (integerText_quoted _) .number)

end LayerGraph
