import LayerGraph.Proofs.Json.Members

/-! # How deeply a text nests

`nesting` counts brackets that are open at the same time, and leaves out the ones in strings.  It
looks at the characters only.  For a text that closes what it opens (`Balanced`) the depth can be
found from the parts: an array or object nests one level deeper than its elements or values.

## Key results

- `balanced_bracket`: arrays and objects are balanced if their parts are
- `nesting_arrayText_le`, `nesting_objectText_le`: how deeply what is written nests -/

namespace LayerGraph.Json

/-- Where a scan of a text stands: outside of strings, in a string, or behind a backslash there. -/
inductive Place where
  | outside
  | string
  | escape

/-- The most brackets that are open at the same time, if `depth` are open before the text. -/
def deepest : Place → (depth : Nat) → List Char → Nat
  | _, depth, [] => depth
  | .outside, depth, c :: cs =>
    if c = '"' then deepest .string depth cs
    else if c = '[' ∨ c = '{' then deepest .outside (depth + 1) cs
    else if c = ']' ∨ c = '}' then max depth (deepest .outside (depth - 1) cs)
    else deepest .outside depth cs
  | .string, depth, c :: cs =>
    if c = '"' then deepest .outside depth cs
    else if c = '\\' then deepest .escape depth cs
    else deepest .string depth cs
  | .escape, depth, _ :: cs => deepest .string depth cs

/-- How deeply the brackets of a text nest. -/
def nesting (cs : List Char) : Nat := deepest .outside 0 cs

/-- The nesting of a text is never less than that at its beginning. -/
private theorem le_deepest (place : Place) (depth : Nat) (cs : List Char) :
    depth ≤ deepest place depth cs := by
  fun_induction deepest place depth cs <;> omega

/-! ## Texts without brackets -/

/-- A text that opens and closes no bracket. -/
def Level (cs : List Char) : Prop :=
  ∀ depth rest, deepest .outside depth (cs ++ rest) = deepest .outside depth rest

/-- A text that closes all the brackets that it opens, and no others. -/
def Balanced (cs : List Char) : Prop :=
  ∀ depth rest bound, deepest .outside depth (cs ++ rest) ≤ bound ↔
    depth + nesting cs ≤ bound ∧ deepest .outside depth rest ≤ bound

/-- A level text before another adds nothing, … -/
private theorem Level.nesting_append {cs : List Char} (h : Level cs) (rest : List Char) :
    nesting (cs ++ rest) = nesting rest :=
  h 0 rest

/-- … and has no nesting itself. -/
private theorem Level.nesting_eq_zero {cs : List Char} (h : Level cs) : nesting cs = 0 := by
  have hnil := h.nesting_append []
  rwa [List.append_nil] at hnil

/-- Two level texts in a row are level. -/
private theorem Level.append {cs cs' : List Char} (h : Level cs) (h' : Level cs') :
    Level (cs ++ cs') := by
  intro depth rest
  rw [List.append_assoc, h, h']

/-- A level text before a balanced one leaves it balanced. -/
private theorem Level.append_balanced {cs cs' : List Char} (h : Level cs) (h' : Balanced cs') :
    Balanced (cs ++ cs') := by
  intro depth rest bound
  rw [List.append_assoc, h, h.nesting_append]
  exact h' depth rest bound

private theorem level_nil : Level [] := fun _ _ => rfl

/-- Level texts are balanced. -/
theorem Level.balanced {cs : List Char} (h : Level cs) : Balanced cs := by
  intro depth rest bound
  rw [h, h.nesting_eq_zero]
  have := le_deepest .outside depth rest
  omega

/-- The characters that a scan for brackets looks for. -/
def isMark (c : Char) : Bool := c == '"' || c == '[' || c == '{' || c == ']' || c == '}'

/-- Text without brackets and quotation marks is level. -/
theorem level_of_all {cs : List Char} (h : (cs.all fun c => !isMark c) = true) : Level cs := by
  induction cs with
  | nil => exact level_nil
  | cons c cs ih =>
    rw [List.all_cons, Bool.and_eq_true] at h
    intro depth rest
    have hrest := ih h.2 depth rest
    have hc := h.1
    simp only [isMark, Bool.not_eq_true', Bool.or_eq_false_iff, beq_eq_false_iff_ne] at hc
    rw [List.cons_append, deepest]
    simp [hc, hrest]

/-! ## Strings -/

private theorem hexDigit?_eq_some_ne {c : Char} {n : Nat} (h : hexDigit? c = some n) :
    c ≠ '"' ∧ c ≠ '\\' := by
  constructor <;> rintro rfl <;> exact absurd h (by simp [hexDigit?])

/-- Within a string no digits of an escape count, … -/
private theorem deepest_codeUnit {digits : List Char} {u : Nat} (h : CodeUnit digits u)
    (depth : Nat) (rest : List Char) :
    deepest .string depth (digits ++ rest) = deepest .string depth rest := by
  cases h with
  | mk ha hb hc hd =>
    simp [deepest, hexDigit?_eq_some_ne ha, hexDigit?_eq_some_ne hb, hexDigit?_eq_some_ne hc,
      hexDigit?_eq_some_ne hd]

/-- … no spelling of a character does … -/
private theorem deepest_spellsChar {piece : List Char} {c : Char} (h : SpellsChar piece c)
    (depth : Nat) (rest : List Char) :
    deepest .string depth (piece ++ rest) = deepest .string depth rest := by
  cases h with
  | plain h => simp [deepest, h.notQuote, h.notBackslash]
  | short h => simp [deepest]
  | unit h _ _ => simp [deepest, deepest_codeUnit h]
  | pair h h' _ _ => simp [deepest, deepest_codeUnit h, deepest_codeUnit h']

/-- … and so no spelling of a string. -/
private theorem deepest_spells {text cs : List Char} (h : Spells text cs) (depth : Nat)
    (rest : List Char) : deepest .string depth (text ++ rest) = deepest .string depth rest := by
  induction h with
  | nil => rfl
  | cons hc _ ih => rw [List.append_assoc, deepest_spellsChar hc, ih]

/-- Quoted strings are level, whatever is in them. -/
theorem level_quote (s : String) : Level (quote s).toList := by
  intro depth rest
  have hspelled := deepest_spells (spells_escape s.toList) depth ('"' :: rest)
  rw [toList_quote, List.cons_append, List.append_assoc]
  simp only [deepest, if_true] at hspelled ⊢
  exact hspelled

/-! ## Arrays and objects -/

/-- Several items nest as deeply as the deepest of them. -/
theorem deepest_later_le {ts : List (List Char)} (h : ∀ t ∈ ts, Balanced t) (depth : Nat)
    (rest : List Char) (bound : Nat) :
    deepest .outside depth ((ts.flatMap fun u => ',' :: u) ++ rest) ≤ bound ↔
      (∀ t ∈ ts, depth + nesting t ≤ bound) ∧ deepest .outside depth rest ≤ bound := by
  induction ts with
  | nil => simp
  | cons t ts ih =>
    rw [List.forall_mem_cons] at h
    have hcomma : Level [','] := level_of_all (by decide)
    have htail := hcomma depth (t ++ ((ts.flatMap fun u => ',' :: u) ++ rest))
    rw [List.flatMap_cons, List.append_assoc, List.cons_append]
    rw [List.cons_append, List.nil_append] at htail
    rw [htail, h.1, ih h.2, List.forall_mem_cons, and_assoc]

/-- Balanced items in a row are as deep as the deepest of them. -/
private theorem deepest_commas_le {ts : List (List Char)} (h : ∀ t ∈ ts, Balanced t) (depth : Nat)
    (rest : List Char) (bound : Nat) :
    deepest .outside depth (commas ts ++ rest) ≤ bound ↔
      (∀ t ∈ ts, depth + nesting t ≤ bound) ∧ deepest .outside depth rest ≤ bound := by
  cases ts with
  | nil => simp [commas]
  | cons t ts =>
    rw [List.forall_mem_cons] at h
    rw [commas, List.append_assoc, h.1, deepest_later_le h.2, List.forall_mem_cons, and_assoc]

/-- Brackets around balanced items add one level. -/
private theorem deepest_bracket_le (top : Bracket) {ts : List (List Char)}
    (h : ∀ t ∈ ts, Balanced t) (depth : Nat) (rest : List Char) (bound : Nat) :
    deepest .outside depth (top.opening :: (commas ts ++ top.closing :: rest)) ≤ bound ↔
      depth + 1 ≤ bound ∧ (∀ t ∈ ts, depth + 1 + nesting t ≤ bound) ∧
        deepest .outside depth rest ≤ bound := by
  have hopening : ∀ cs, deepest .outside depth (top.opening :: cs) =
      deepest .outside (depth + 1) cs := by
    intro cs
    cases top <;> simp [deepest, Bracket.opening]
  -- Behind the closing bracket the depth is what it was.
  have hclosing : deepest .outside (depth + 1) (top.closing :: rest) =
      max (depth + 1) (deepest .outside depth rest) := by
    cases top <;> simp [deepest, Bracket.closing]
  rw [hopening, deepest_commas_le h, hclosing, Nat.max_le]
  exact and_left_comm

/-- The same from the outside. -/
private theorem nesting_bracket_le (top : Bracket) {ts : List (List Char)}
    (h : ∀ t ∈ ts, Balanced t) (bound : Nat) :
    nesting (top.opening :: (commas ts ++ [top.closing])) ≤ bound ↔
      ∃ b, bound = b + 1 ∧ ∀ t ∈ ts, nesting t ≤ b := by
  rw [nesting, deepest_bracket_le top h]
  constructor
  · rintro ⟨hbound, hts, _⟩
    exact ⟨bound - 1, by omega, fun t ht => by have := hts t ht; omega⟩
  · rintro ⟨b, rfl, hts⟩
    exact ⟨by omega, fun t ht => by have := hts t ht; omega, Nat.zero_le _⟩

/-- Brackets around balanced items are balanced. -/
theorem balanced_bracket (top : Bracket) {ts : List (List Char)} (h : ∀ t ∈ ts, Balanced t) :
    Balanced (top.opening :: (commas ts ++ [top.closing])) := by
  intro depth rest bound
  have hnest := nesting_bracket_le top h (bound - depth)
  rw [List.cons_append, List.append_assoc]
  refine (deepest_bracket_le top h depth rest bound).trans ?_
  -- `hnest` counts from no open bracket and the goal from `depth` of them.
  constructor
  · rintro ⟨hbound, hts, hrest⟩
    have := hnest.mpr ⟨bound - depth - 1, by omega, fun t ht => by have := hts t ht; omega⟩
    exact ⟨by omega, hrest⟩
  · rintro ⟨hbound, hrest⟩
    obtain ⟨b, hb, hts⟩ := hnest.mp (by omega)
    exact ⟨by omega, fun t ht => by have := hts t ht; omega, hrest⟩

/-- The name of a member does not nest. -/
theorem level_name (name : String) : Level ((quote name).toList ++ [':']) :=
  (level_quote name).append (level_of_all (by decide))

/-- A member is balanced if its value is, … -/
private theorem balanced_member (name : String) {value : List Char} (h : Balanced value) :
    Balanced (member name value) := by
  have hmember := (level_name name).append_balanced h
  rwa [List.append_assoc] at hmember

/-- … and nested as deep. -/
private theorem nesting_member (name : String) (value : List Char) :
    nesting (member name value) = nesting value := by
  have hmember := (level_name name).nesting_append value
  rwa [List.append_assoc] at hmember

section Texts

variable {ts : List String} {ms : List (String × String)}

/-- Arrays of balanced elements are balanced. -/
theorem balanced_arrayText (h : ∀ t ∈ ts, Balanced t.toList) :
    Balanced (arrayText ts).toList := by
  rw [toList_arrayText]
  exact balanced_bracket .square (by simpa using h)

/-- Members with balanced values are balanced, … -/
theorem balanced_members (h : ∀ m ∈ ms, Balanced m.2.toList) :
    ∀ t ∈ ms.map fun m => member m.1 m.2.toList, Balanced t := by
  intro t ht
  obtain ⟨m, hm, rfl⟩ := List.mem_map.mp ht
  exact balanced_member m.1 (h m hm)

/-- … and so are objects. -/
theorem balanced_objectText (h : ∀ m ∈ ms, Balanced m.2.toList) :
    Balanced (objectText ms).toList := by
  rw [toList_objectText]
  exact balanced_bracket .curly (balanced_members h)

/-- An array nests one level deeper than its elements. -/
theorem nesting_arrayText_le (h : ∀ t ∈ ts, Balanced t.toList) (depth : Nat) :
    nesting (arrayText ts).toList ≤ depth ↔
      ∃ d, depth = d + 1 ∧ ∀ t ∈ ts, nesting t.toList ≤ d := by
  have hts : ∀ t ∈ ts.map String.toList, Balanced t := by simpa using h
  rw [toList_arrayText]
  refine (nesting_bracket_le .square hts depth).trans ?_
  simp only [List.forall_mem_map]

/-- An object nests one level deeper than the values of its members. -/
theorem nesting_objectText_le (h : ∀ m ∈ ms, Balanced m.2.toList) (depth : Nat) :
    nesting (objectText ms).toList ≤ depth ↔
      ∃ d, depth = d + 1 ∧ ∀ m ∈ ms, nesting m.2.toList ≤ d := by
  rw [toList_objectText]
  refine (nesting_bracket_le .curly (balanced_members h) depth).trans ?_
  simp only [List.forall_mem_map, nesting_member]

end Texts

end LayerGraph.Json
