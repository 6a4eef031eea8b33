import LayerGraph.Json.Skip
import LayerGraph.Proofs.Json.Reading

/-! # Any JSON value can be skipped

Skipping checks no more than the grammar: `skip` takes every JSON value, however deeply it nests
and whatever its numbers and strings are, and stops right behind it.

The brackets that are open stand on a stack, and what happens after a value depends on the stack.
So the statements here are about a value together with what follows it: if the rest can be skipped
after a complete value, then it can be skipped with the value in front.

## Key results

- `yields_skipScalar`: words, numbers and strings are skipped
- `skips_value`: by induction on the grammar, so are all values
- `takes_skip`: the same for the reader -/

namespace LayerGraph.Json

/-! ## Scalars -/

/-- Every piece of a string is skipped, … -/
private theorem yields_skipCharacter {piece : List Char} (h : IsPiece piece) (rest : List Char) :
    Yields (skipCharacter (piece ++ rest)) false rest := by
  cases h with
  | @plain c h =>
    have hcontrol : ¬ c.toNat < 0x20 := Nat.not_lt.mpr h.notControl
    exact ⟨by simp, by simp [skipCharacter, h.notQuote, h.notBackslash, hcontrol]⟩
  | @short e h =>
    have he : e ≠ 'u' := by
      rintro rfl
      exact absurd h (by decide)
    exact ⟨by simp only [List.length_cons, List.length_append]; omega,
      by simp [skipCharacter, he, h, Parsed.past, Parsed.widen]⟩
  | unit h =>
    -- Unlike a reader, this one does not look at the code unit.
    apply (yields_fourHex h rest).bind
    intro hlt
    exact ⟨Nat.lt_succ_of_lt (Nat.lt_succ_of_lt hlt), rfl⟩

/-- … one after the other … -/
private theorem yields_skipCharacters_cons {bound : Nat} {cs cs' rest : List Char}
    {hbound : cs.length ≤ bound} (hc : Yields (skipCharacter cs) false cs')
    (h : ∀ hbound', Yields (skipCharacters bound cs' hbound') () rest) :
    Yields (skipCharacters bound cs hbound) () rest := by
  obtain ⟨hlt, heq⟩ := hc
  rw [skipCharacters, heq]
  exact h _

/-- … up to the closing mark. -/
private theorem yields_skipCharacters {text : List Char} (h : IsString text) (bound : Nat)
    (rest : List Char) (hbound : (text ++ '"' :: rest).length ≤ bound) :
    Yields (skipCharacters bound (text ++ '"' :: rest) hbound) () rest := by
  induction h with
  | nil =>
    have hquote : skipCharacter ([] ++ '"' :: rest) = .ok ⟨true, rest, length_tail_lt '"' rest⟩ :=
      rfl
    rw [skipCharacters, hquote]
    exact ⟨hbound, rfl⟩
  | @cons piece text hc _ ih =>
    have hpiece : Yields (skipCharacter (piece ++ text ++ '"' :: rest)) false
        (text ++ '"' :: rest) := by
      rw [List.append_assoc]
      exact yields_skipCharacter hc _
    exact yields_skipCharacters_cons hpiece ih

/-- Strings are skipped, … -/
private theorem yields_skipString {text : List Char} (h : IsString text) (rest : List Char) :
    Yields (skipString (text ++ '"' :: rest)) () rest :=
  yields_skipCharacters h _ rest (Nat.le_refl _)

/-- … numbers are, … -/
private theorem yields_skipNumber {n : Numeral} {text rest : List Char} (h : NumeralText n text)
    (hrest : Ended rest) : Yields (skipNumber (text ++ rest)) () rest := by
  obtain ⟨hlt, heq⟩ := yields_numeral h hrest
  exact ⟨hlt, by rw [skipNumber, heq]; rfl⟩

/-- … and so are all scalars. -/
theorem yields_skipScalar {text rest : List Char} (h : IsScalar text) (hrest : Ended rest) :
    Yields (skipScalar (text ++ rest)) () rest := by
  cases h with
  | nullWord => exact yields_word () "ull".toList 'n' rest
  | trueWord => exact yields_word () "rue".toList 't' rest
  | falseWord => exact yields_word () "alse".toList 'f' rest
  | @number n cs h =>
    have hskip := yields_skipNumber h hrest
    obtain ⟨c, cs, rfl, hc⟩ := h.eq_cons
    -- A number begins with none of the other first characters.
    rw [List.cons_append, skipScalar, if_neg (ne_of_startsNumber hc (by decide)),
      if_neg (ne_of_startsNumber hc (by decide)), if_neg (ne_of_startsNumber hc (by decide)),
      if_neg (ne_of_startsNumber hc (by decide)), if_pos hc]
    exact hskip
  | string h =>
    rw [List.cons_append, List.append_assoc]
    apply (yields_skipString h rest).bind
    intro hlt
    exact ⟨Nat.lt_succ_of_lt hlt, rfl⟩

/-! ## One step -/

/-- The character that opens an array or object. -/
def Bracket.opening : Bracket → Char
  | square => '['
  | curly => '{'

private theorem Bracket.isBlank_opening (b : Bracket) : isBlank b.opening = false := by
  cases b <;> rfl

private theorem Bracket.isBlank_closing (b : Bracket) : isBlank b.closing = false := by
  cases b <;> rfl

/-- A number ends before a closing bracket. -/
theorem Bracket.ended_closing (b : Bracket) (rest : List Char) : Ended (b.closing :: rest) := by
  cases b <;> exact ended_cons (by decide)

section Steps

variable {bound : Nat} {top : Bracket} {stack : List Bracket} {cs rest final : List Char}

/-- Where a value is due, a scalar is skipped … -/
private theorem yields_skipValue_scalar {c : Char} {more : List Char} {h : cs.length ≤ bound}
    (hfront : Yields (front cs) c more) (hsquare : c ≠ '[') (hcurly : c ≠ '{')
    (hscalar : Yields (skipScalar (c :: more)) () rest)
    (hrest : ∀ h', Yields (skipClosed bound stack rest h') () final) :
    Yields (skipValue bound stack cs h) () final := by
  obtain ⟨_, hfront⟩ := hfront
  obtain ⟨_, hscalar⟩ := hscalar
  rw [skipValue, hfront]
  simp only [hsquare, hcurly, if_false, hscalar]
  exact hrest _

/-- … and a bracket is opened. -/
private theorem yields_skipValue_opening {h : cs.length ≤ bound}
    (hfront : Yields (front cs) top.opening rest)
    (hrest : ∀ h', Yields (skipOpened bound top stack rest h') () final) :
    Yields (skipValue bound stack cs h) () final := by
  obtain ⟨_, hfront⟩ := hfront
  rw [skipValue, hfront]
  cases top with
  | square => exact hrest _
  | curly => exact hrest _

/-- Behind an opening bracket stands the closing one … -/
private theorem yields_skipOpened_closing {h : cs.length < bound}
    (hfront : Yields (front cs) top.closing rest)
    (hrest : ∀ h', Yields (skipClosed bound stack rest h') () final) :
    Yields (skipOpened bound top stack cs h) () final := by
  obtain ⟨_, hfront⟩ := hfront
  rw [skipOpened, hfront]
  simp only [if_true]
  exact hrest _

/-- … or the first item. -/
private theorem yields_skipOpened_item {c : Char} {h : cs.length < bound}
    (hfront : Yields (front cs) c rest) (hc : c ≠ top.closing)
    (hitem : ∀ h', Yields (skipItem bound top stack cs h') () final) :
    Yields (skipOpened bound top stack cs h) () final := by
  obtain ⟨_, hfront⟩ := hfront
  rw [skipOpened, hfront]
  simp only [hc, if_false]
  exact hitem _

/-- An item of an array is a value, … -/
private theorem yields_skipItem_square {h : cs.length ≤ bound}
    (hvalue : Yields (skipValue bound (.square :: stack) cs h) () final) :
    Yields (skipItem bound .square stack cs h) () final := by
  rwa [skipItem]

/-- … and one of an object is a name and a value. -/
private theorem yields_skipItem_curly {h : cs.length ≤ bound} (hname : Yields (skipName cs) () rest)
    (hvalue : ∀ h', Yields (skipValue bound (.curly :: stack) rest h') () final) :
    Yields (skipItem bound .curly stack cs h) () final := by
  obtain ⟨_, hname⟩ := hname
  rw [skipItem, hname]
  exact hvalue _

/-- Behind a value stands a comma and the next item … -/
private theorem yields_skipClosed_comma {h : cs.length < bound}
    (hfront : Yields (front cs) ',' rest)
    (hitem : ∀ h', Yields (skipItem bound top stack rest h') () final) :
    Yields (skipClosed bound (top :: stack) cs h) () final := by
  obtain ⟨_, hfront⟩ := hfront
  rw [skipClosed, hfront]
  exact hitem _

/-- … or the closing bracket. -/
private theorem yields_skipClosed_closing {h : cs.length < bound}
    (hfront : Yields (front cs) top.closing rest)
    (hrest : ∀ h', Yields (skipClosed bound stack rest h') () final) :
    Yields (skipClosed bound (top :: stack) cs h) () final := by
  obtain ⟨_, hfront⟩ := hfront
  rw [skipClosed, hfront]
  cases top with
  | square => exact hrest _
  | curly => exact hrest _

end Steps

/-! ## Values -/

/-- Numbers do not begin with a blank. -/
theorem isBlank_of_startsNumber {c : Char} (hc : c = '-' ∨ c.isDigit = true) :
    isBlank c = false := by
  simp only [isBlank, Bool.or_eq_false_iff, beq_eq_false_iff_ne]
  exact ⟨⟨⟨ne_of_startsNumber hc (by decide), ne_of_startsNumber hc (by decide)⟩,
    ne_of_startsNumber hc (by decide)⟩, ne_of_startsNumber hc (by decide)⟩

/-- The first character of a scalar. -/
theorem IsScalar.eq_cons {text : List Char} (h : IsScalar text) :
    ∃ c cs, text = c :: cs ∧ isBlank c = false ∧ c ≠ '[' ∧ c ≠ '{' ∧ c ≠ ']' := by
  cases h with
  | nullWord => exact ⟨_, _, rfl, by decide⟩
  | trueWord => exact ⟨_, _, rfl, by decide⟩
  | falseWord => exact ⟨_, _, rfl, by decide⟩
  | number h =>
    obtain ⟨c, cs, rfl, hc⟩ := h.eq_cons
    exact ⟨c, cs, rfl, isBlank_of_startsNumber hc, ne_of_startsNumber hc (by decide),
      ne_of_startsNumber hc (by decide), ne_of_startsNumber hc (by decide)⟩
  | string h => exact ⟨_, _, rfl, by decide⟩

/-- The first character of a value is not a closing bracket. -/
theorem IsValue.eq_cons {v : List Char} (h : IsValue v) :
    ∃ c cs, v = c :: cs ∧ isBlank c = false ∧ c ≠ ']' := by
  cases h with
  | scalar h =>
    obtain ⟨c, cs, rfl, hblank, _, _, hclosing⟩ := h.eq_cons
    exact ⟨c, cs, rfl, hblank, hclosing⟩
  | emptyArray => exact ⟨_, _, rfl, by decide⟩
  | array => exact ⟨_, _, rfl, by decide⟩
  | emptyObject => exact ⟨_, _, rfl, by decide⟩
  | object => exact ⟨_, _, rfl, by decide⟩

/-- A value does not begin like the end of an array, … -/
theorem IsText.yields_front {t : List Char} (h : IsText t) (rest : List Char) :
    ∃ c more, c ≠ ']' ∧ Yields (front (t ++ rest)) c more := by
  cases h with
  | @mk before v after hbefore hv _ =>
    obtain ⟨c, cs, rfl, hblank, hclosing⟩ := hv.eq_cons
    refine ⟨c, cs ++ after ++ rest, hclosing, ?_⟩
    rw [List.append_assoc]
    exact Json.yields_front hbefore hblank (cs ++ after ++ rest)

/-- … so neither do elements. -/
theorem IsElements.yields_front {cs : List Char} (h : IsElements cs) (rest : List Char) :
    ∃ c more, c ≠ ']' ∧ Yields (front (cs ++ rest)) c more := by
  cases h with
  | last hv => exact hv.yields_front rest
  | more hv _ =>
    rw [List.append_assoc]
    exact hv.yields_front _

/-- Members begin with the quotation mark of a name. -/
theorem IsMembers.yields_front {cs : List Char} (h : IsMembers cs) (rest : List Char) :
    ∃ more, Yields (front (cs ++ rest)) '"' more := by
  cases h with
  | last hbefore =>
    rw [List.append_assoc]
    exact ⟨_, Json.yields_front hbefore (by decide) _⟩
  | more hbefore =>
    rw [List.append_assoc]
    exact ⟨_, Json.yields_front hbefore (by decide) _⟩

/-- The name of a member is skipped with its colon. -/
private theorem yields_skipName {before name gap : List Char} (hbefore : Blank before)
    (hname : IsString name) (hgap : Blank gap) (rest : List Char) :
    Yields (skipName (before ++ '"' :: (name ++ '"' :: (gap ++ ':' :: rest)))) () rest := by
  apply (yields_mark hbefore (by decide) _).bind
  intro hlt
  apply (yields_skipString hname _).bind
  intro hlt'
  apply (yields_mark hgap (by decide) rest).bind
  intro hlt''
  exact ⟨by omega, rfl⟩

/-- With any stack, a value can be skipped if what follows it can. -/
def SkipsValue (v : List Char) : Prop :=
  ∀ (bound : Nat) (stack : List Bracket) (blanks rest final : List Char)
    (h : (blanks ++ (v ++ rest)).length ≤ bound), Blank blanks → Ended rest →
    (∀ h', Yields (skipClosed bound stack rest h') () final) →
    Yields (skipValue bound stack (blanks ++ (v ++ rest)) h) () final

/-- Inside of a bracket, a text can be skipped if the items after it can, or if it is the last item
    and what follows the bracket can be skipped. -/
structure SkipsText (t : List Char) : Prop where
  comma : ∀ (bound : Nat) (top : Bracket) (stack : List Bracket) (rest final : List Char)
    (h : (t ++ ',' :: rest).length ≤ bound),
    (∀ h', Yields (skipItem bound top stack rest h') () final) →
    Yields (skipValue bound (top :: stack) (t ++ ',' :: rest) h) () final
  closing : ∀ (bound : Nat) (top : Bracket) (stack : List Bracket) (rest final : List Char)
    (h : (t ++ top.closing :: rest).length ≤ bound),
    (∀ h', Yields (skipClosed bound stack rest h') () final) →
    Yields (skipValue bound (top :: stack) (t ++ top.closing :: rest) h) () final

/-- The items before a closing bracket can be skipped if what follows the bracket can. -/
def SkipsItems (top : Bracket) (cs : List Char) : Prop :=
  ∀ (bound : Nat) (stack : List Bracket) (rest final : List Char)
    (h : (cs ++ top.closing :: rest).length ≤ bound),
    (∀ h', Yields (skipClosed bound stack rest h') () final) →
    Yields (skipItem bound top stack (cs ++ top.closing :: rest) h) () final

/-- Scalars are skipped, … -/
private theorem skipsValue_of_isScalar {v : List Char} (h : IsScalar v) : SkipsValue v := by
  intro bound stack blanks rest final hbound hblanks hended hrest
  have hscalar := yields_skipScalar h hended
  obtain ⟨c, cs, rfl, hblank, hsquare, hcurly, _⟩ := h.eq_cons
  exact yields_skipValue_scalar (yields_front hblanks hblank _) hsquare hcurly hscalar hrest

/-- An array or object can be skipped if its items can, or if it has none. -/
theorem skipsValue_of_items {top : Bracket} {cs : List Char} (hitems : SkipsItems top cs)
    (hfront : ∀ rest, ∃ c more, c ≠ top.closing ∧ Yields (front (cs ++ rest)) c more) :
    SkipsValue (top.opening :: (cs ++ [top.closing])) := by
  intro bound stack blanks rest final hbound hblanks _ hrest
  simp only [List.append_assoc, List.cons_append, List.nil_append]
  apply yields_skipValue_opening (yields_front hblanks top.isBlank_opening _)
  intro hbound'
  obtain ⟨c, more, hc, hfront⟩ := hfront (top.closing :: rest)
  exact yields_skipOpened_item hfront hc fun h => hitems bound stack rest final h hrest

/-- … and so are brackets with nothing in them. -/
private theorem skipsValue_of_blank (top : Bracket) {inner : List Char} (hinner : Blank inner) :
    SkipsValue (top.opening :: (inner ++ [top.closing])) := by
  intro bound stack blanks rest final hbound hblanks _ hrest
  simp only [List.append_assoc, List.cons_append, List.nil_append]
  apply yields_skipValue_opening (yields_front hblanks top.isBlank_opening _)
  intro hbound'
  exact yields_skipOpened_closing (yields_front hinner top.isBlank_closing rest) hrest

/-- A value is skipped with the blanks around it. -/
private theorem skipsText_of_value {before v after : List Char} (hbefore : Blank before)
    (hv : SkipsValue v) (hafter : Blank after) : SkipsText (before ++ (v ++ after)) where
  comma bound top stack rest final h hitem := by
    simp only [List.append_assoc]
    apply hv bound (top :: stack) before _ final _ hbefore (hafter.ended (ended_cons (by decide)))
    intro h'
    exact yields_skipClosed_comma (yields_front hafter (by decide) rest) hitem
  closing bound top stack rest final h hrest := by
    simp only [List.append_assoc]
    apply hv bound (top :: stack) before _ final _ hbefore (hafter.ended (top.ended_closing rest))
    intro h'
    exact yields_skipClosed_closing (yields_front hafter top.isBlank_closing rest) hrest

-- The induction follows the grammar.  The stack stays arbitrary all the time, since the items of
-- an array or object are skipped with its bracket on the stack.
mutual
/-- Values are skipped, and with them all that is inside, however deep. -/
theorem skips_value {v : List Char} : IsValue v → SkipsValue v
  | .scalar h => skipsValue_of_isScalar h
  | .emptyArray h => skipsValue_of_blank .square h
  | .array h => skipsValue_of_items (skips_elements h) h.yields_front
  | .emptyObject h => skipsValue_of_blank .curly h
  | .object h => skipsValue_of_items (skips_members h) fun rest =>
    have ⟨more, hfront⟩ := h.yields_front rest
    ⟨'"', more, by decide, hfront⟩

theorem skips_text {t : List Char} : IsText t → SkipsText t
  | .mk hbefore hv hafter => skipsText_of_value hbefore (skips_value hv) hafter

theorem skips_elements {cs : List Char} : IsElements cs → SkipsItems .square cs
  | .last hv => by
    intro bound stack rest final h hrest
    apply yields_skipItem_square
    exact (skips_text hv).closing bound .square stack rest final h hrest
  | .more hv hvs => by
    intro bound stack rest final h hrest
    apply yields_skipItem_square
    simp only [List.append_assoc, List.cons_append]
    apply (skips_text hv).comma
    intro h'
    exact skips_elements hvs bound stack rest final h' hrest

theorem skips_members {cs : List Char} : IsMembers cs → SkipsItems .curly cs
  | .last hbefore hname hgap hv => by
    intro bound stack rest final h hrest
    simp only [List.append_assoc, List.cons_append]
    apply yields_skipItem_curly (yields_skipName hbefore hname hgap _)
    intro h'
    exact (skips_text hv).closing bound .curly stack rest final h' hrest
  | .more hbefore hname hgap hv hvs => by
    intro bound stack rest final h hrest
    simp only [List.append_assoc, List.cons_append]
    apply yields_skipItem_curly (yields_skipName hbefore hname hgap _)
    intro h'
    -- The value ends at the comma, and the other members are skipped by recursion.
    apply (skips_text hv).comma
    intro h''
    exact skips_members hvs bound stack rest final h'' hrest
end

/-- The reader that skips takes any value with blanks before it. -/
theorem takes_skip {blanks v : List Char} (hblanks : Blank blanks) (hv : IsValue v) :
    skip.Takes (blanks ++ v) () := by
  intro rest hrest
  rw [List.append_assoc]
  apply skips_value hv _ [] blanks rest rest _ hblanks hrest
  intro h
  exact ⟨h, by rw [skipClosed]⟩

end LayerGraph.Json
