import LayerGraph.Json.Value
import LayerGraph.Proofs.Json.Nesting
import LayerGraph.Proofs.Literal

/-! # Parameter values are read back

A value is read back from its text, if its numbers are integers that 64 bits can hold and the text
does not nest more deeply than the reader allows.  So are the parameters of a layer: the reader
inserts them one by one, in the order in which they were.

## Key results

- `takesElement_valueText`: values are read back
- `takes_parameters`: parameters are read back -/

namespace LayerGraph

namespace Value

mutual
/-- The numbers inside a value. -/
def numbers : Value → List Number
  | .number n => [n]
  | .seq items => numbersAll items
  | .null | .bool _ | .text _ => []

/-- The numbers inside several values. -/
def numbersAll : List Value → List Number
  | [] => []
  | v :: vs => v.numbers ++ numbersAll vs
end

/-- The numbers in some values are those in one of them. -/
theorem mem_numbersAll {items : List Value} {n : Number} :
    n ∈ numbersAll items ↔ ∃ v ∈ items, n ∈ v.numbers := by
  induction items with
  | nil => simp [numbersAll]
  | cons v vs ih => simp [numbersAll, ih]

end Value

/-- An integer that 64 bits can hold, signed or unsigned. -/
def Number.Fits (n : Number) : Prop :=
  ∃ k : Int, n = .int k ∧ -(Nat.pow 2 63 : Nat) ≤ k ∧ k < (Nat.pow 2 64 : Nat)

namespace Json

/-! ## How values nest -/

private theorem valueTexts_eq_map (vs : List Value) : valueTexts vs = vs.map valueText := by
  induction vs with
  | nil => rfl
  | cons v vs ih => rw [valueTexts, ih, List.map_cons]

/-- Numbers have no brackets in them. -/
private theorem level_number (n : Number) : Level n.text.toList := by
  apply level_of_all
  rw [List.all_eq_true]
  intro c hc
  have hchar := Number.isNumberChar_of_mem_text n c hc
  rw [Bool.not_eq_true', ← Bool.not_eq_true]
  intro hmark
  simp only [isMark, Bool.or_eq_true, beq_iff_eq] at hmark
  rcases hmark with (((rfl | rfl) | rfl) | rfl) | rfl <;> exact absurd hchar (by decide)

/-- All values are balanced. -/
private theorem balanced_valueText (v : Value) : Balanced (valueText v).toList := by
  induction v using Value.induction with
  | null => exact (level_of_all (by decide)).balanced
  | bool b => cases b <;> exact (level_of_all (by decide)).balanced
  | number n => exact (level_number n).balanced
  | text s => exact (level_quote s).balanced
  | seq items ih =>
    rw [valueText, valueTexts_eq_map]
    exact balanced_arrayText (by simpa using ih)

/-! ## Reading scalars -/

/-- Behind its opening mark a quoted string is read back. -/
private theorem yields_stringAfter (s : String) (rest : List Char) :
    Yields (stringAfter '"' (s.toList.flatMap escape ++ '"' :: rest)) s rest :=
  (yields_stringBody (spells_escape s.toList) rest).bind fun hlt => ⟨Nat.lt_succ_of_lt hlt, rfl⟩

/-- A quoted string is read back. -/
theorem takes_string (s : String) : string.Takes (quote s).toList s := by
  intro rest _
  rw [toList_quote, List.cons_append, List.append_assoc]
  exact yields_afterBlanks blank_nil (by decide) (yields_stringAfter s rest)

/-- A string is read back as a scalar, … -/
private theorem takes_scalar_text (s : String) : scalar.Takes (quote s).toList (.text s) := by
  intro rest _
  rw [toList_quote, List.cons_append, List.append_assoc]
  exact (yields_stringAfter s rest).bind fun hlt => ⟨hlt, rfl⟩

/-- … and so is a number. -/
theorem takes_scalar_number {n : Numeral} {text : List Char} {v : Number} (h : NumeralText n text)
    (hv : n.number? = some v) : scalar.Takes text (.number v) := by
  intro rest hrest
  have hnumber := takes_number h hv rest hrest
  obtain ⟨c, cs, rfl, hc⟩ := h.eq_cons
  rw [List.cons_append, scalar, if_neg (ne_of_startsNumber hc (by decide)),
    if_neg (ne_of_startsNumber hc (by decide)), if_neg (ne_of_startsNumber hc (by decide)),
    if_neg (ne_of_startsNumber hc (by decide)), if_pos hc]
  exact hnumber.bind fun hlt => ⟨hlt, rfl⟩

/-- A scalar is read the same at any depth. -/
theorem takesElement_scalar (depth : Nat) {text : List Char} {v : Value}
    (h : scalar.Takes text v)
    (hstarts : ∃ c cs, text = c :: cs ∧ isBlank c = false ∧ c ≠ '[' ∧ c ≠ '{' ∧ c ≠ ']') :
    TakesElement (anyValue depth) text (some v) := by
  obtain ⟨c, cs, rfl, hblank, hsquare, hcurly, hclosing⟩ := hstarts
  refine ⟨?_, c, cs, rfl, hblank, hclosing⟩
  intro rest hrest
  have hscalar := (h.map some) rest hrest
  rw [anyValue]
  apply yields_afterBlanks blank_nil hblank
  simpa [hsquare, hcurly] using hscalar

/-- A string is read back as an element of an array. -/
theorem takesElement_text (depth : Nat) (s : String) :
    TakesElement (anyValue depth) (quote s).toList (some (.text s)) := by
  apply takesElement_scalar depth (takes_scalar_text s)
  rw [toList_quote]
  exact ⟨_, _, rfl, by decide⟩

/-- Null is read as nothing. -/
theorem takes_nullable_none {α : Type} (read : Reader α) :
    (nullable read).Takes "null".toList none :=
  fun rest _ => yields_afterBlanks blank_nil (by decide) (yields_word none "ull".toList 'n' rest)

/-- Something is read as itself, if it does not begin like null. -/
theorem takes_nullable_some {α : Type} {read : Reader α} {text : List Char} {a : α}
    (h : read.Takes text a)
    (hstarts : ∃ c cs, text = c :: cs ∧ isBlank c = false ∧ c ≠ 'n') :
    (nullable read).Takes text (some a) := by
  obtain ⟨c, cs, rfl, hblank, hnull⟩ := hstarts
  intro rest hrest
  have hread := (h.map some) rest hrest
  apply yields_afterBlanks blank_nil hblank
  simpa [hnull] using hread

/-! ## Reading values -/

private theorem mapM_id_map_some {α : Type} (as : List α) : (as.map some).mapM id = some as := by
  induction as with
  | nil => rfl
  | cons a as ih => simp [List.mapM_cons, ih]

/-- A sequence is read if its elements are, one level less deep. -/
theorem takesElement_seq {depth : Nat} {items : List Value}
    (h : ∀ v ∈ items, TakesElement (anyValue depth) (valueText v).toList (some v)) :
    TakesElement (anyValue (depth + 1)) (arrayText (items.map valueText)).toList
      (some (.seq items)) := by
  have hitems : List.Forall₂ (TakesElement (anyValue depth))
      ((items.map valueText).map String.toList) (items.map some) := by
    rw [List.map_map, List.forall₂_map_left_iff, List.forall₂_map_right_iff, List.forall₂_same]
    exact h
  rw [toList_arrayText]
  refine ⟨?_, '[', _, rfl, by decide⟩
  intro rest hrest
  rw [anyValue, List.cons_append, List.append_assoc]
  apply yields_afterBlanks blank_nil (by decide)
  apply (yields_elements hitems rest).bind
  intro hlt
  -- All elements are values, so the array is one.
  exact ⟨Nat.lt_succ_of_lt hlt, by simp only [Parsed.map, mapM_id_map_some]; rfl⟩

/-- A value is read back, in an array or alone. -/
theorem takesElement_valueText (v : Value) : ∀ (depth : Nat), (∀ n ∈ v.numbers, n.Fits) →
    nesting (valueText v).toList ≤ depth →
    TakesElement (anyValue depth) (valueText v).toList (some v) := by
  induction v using Value.induction with
  | null =>
    -- Scalars are read at every depth.
    intro depth _ _
    exact takesElement_scalar depth (fun rest _ => yields_word Value.null "ull".toList 'n' rest)
      IsScalar.nullWord.eq_cons
  | bool b =>
    intro depth _ _
    cases b with
    | true =>
      exact takesElement_scalar depth
        (fun rest _ => yields_word (Value.bool true) "rue".toList 't' rest)
        IsScalar.trueWord.eq_cons
    | false =>
      exact takesElement_scalar depth
        (fun rest _ => yields_word (Value.bool false) "alse".toList 'f' rest)
        IsScalar.falseWord.eq_cons
  | number n =>
    intro depth hfits _
    obtain ⟨k, rfl, hlow, hhigh⟩ := hfits n (by simp [Value.numbers])
    obtain ⟨n, htext, hvalue⟩ := exists_numeral_integerText hlow hhigh
    exact takesElement_scalar depth (takes_scalar_number htext hvalue)
      (IsScalar.number htext).eq_cons
  | text s =>
    intro depth _ _
    exact takesElement_text depth s
  | seq items ih =>
    intro depth hfits hnest
    rw [valueText, valueTexts_eq_map] at hnest ⊢
    have hbalanced : ∀ t ∈ items.map valueText, Balanced t.toList := by
      rw [List.forall_mem_map]
      exact fun v _ => balanced_valueText v
    -- The bracket takes one level, and the elements have what is left.
    obtain ⟨d, rfl, hdepth⟩ := (nesting_arrayText_le hbalanced depth).mp hnest
    apply takesElement_seq
    intro v hv
    apply ih v hv d
    · intro n hn
      exact hfits n (Value.mem_numbersAll.mpr ⟨v, hv, hn⟩)
    · exact hdepth _ (List.mem_map_of_mem hv)

/-- A value is read back if its numbers fit and it is not nested too deep. -/
private theorem takes_value {v : Value} {depth : Nat} (hfits : ∀ n ∈ v.numbers, n.Fits)
    (hnest : nesting (valueText v).toList ≤ depth) : (value depth).Takes (valueText v).toList v :=
  (takesElement_valueText v depth hfits hnest).takes.check rfl

/-! ## Reading parameters -/

private theorem balanced_parameters (params : Parameters) :
    ∀ m ∈ params.entries.map fun e => (e.1, valueText e.2), Balanced m.2.toList := by
  rw [List.forall_mem_map]
  exact fun e _ => balanced_valueText e.2

/-- Parameters are balanced. -/
theorem balanced_parametersText (params : Parameters) :
    Balanced (parametersText params).toList :=
  balanced_objectText (balanced_parameters params)

/-- The reader of the parameters inserts them one after the other. -/
theorem takesMembers_parameters {depth : Nat} {entries : List (String × Value)}
    (hfits : ∀ e ∈ entries, ∀ n ∈ e.2.numbers, n.Fits)
    (hnest : ∀ e ∈ entries, nesting (valueText e.2).toList ≤ depth) (params : Parameters) :
    TakesMembers (fun params name => .ok ((value depth).map (OrderedMap.insert params name))) params
      (entries.map fun e => member e.1 (valueText e.2).toList)
      (entries.foldl (fun params e => params.insert e.1 e.2) params) := by
  induction entries generalizing params with
  | nil => exact .nil params
  | cons e entries ih =>
    rw [List.forall_mem_cons] at hfits hnest
    exact .cons (memberText_member _ _) rfl ((takes_value hfits.1 hnest.1).map _)
      (ih hfits.2 hnest.2 _)

/-- Parameters are read back with their values and in their order. -/
theorem takes_parameters {params : Parameters} {depth : Nat}
    (hfits : ∀ e ∈ params.entries, ∀ n ∈ e.2.numbers, n.Fits)
    (hnest : nesting (parametersText params).toList ≤ depth) :
    (parameters depth).Takes (parametersText params).toList params := by
  obtain ⟨d, rfl, hdepth⟩ := (nesting_objectText_le (balanced_parameters params) depth).mp hnest
  rw [List.forall_mem_map] at hdepth
  have hmembers := takes_object (takesMembers_parameters hfits hdepth ∅)
  rw [show params.entries.foldl (fun params e => params.insert e.1 e.2) ∅ = params from
    OrderedMap.ofList_entries params] at hmembers
  rw [parametersText, toList_objectText, List.map_map]
  exact hmembers

end Json

end LayerGraph
