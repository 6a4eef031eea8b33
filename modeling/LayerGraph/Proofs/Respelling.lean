import LayerGraph.Proofs.Json.Lockstep

/-! # Ids in another spelling

An integer id may be written as a number or as a string.  `RespelledText` relates two texts of a
request that differ in nothing else: wherever the one has an integer for an id, the other may have
the same integer in the other form.  Where the ids stand is said by `Place`, which follows the
members of objects by their names and the elements of arrays by their positions.

All of JSON is covered: blanks, members in any order and with any names, records as arrays, and
texts that are no requests and will be refused.

## Key results

- `RespelledText.isText`: both texts are JSON
- `RespelledText.refl`: every JSON text is a respelling of itself -/

namespace LayerGraph

open Json

namespace Request

/-! ## Where ids stand -/

/-- What is expected at a place in the text of a request. -/
inductive Place where
  | request
  | layers
  | layer
  | descriptor
  | ids
  | id
  | other
deriving DecidableEq, Repr

namespace Place

/-- The fields of a record in their order, with what is expected there. -/
def fields : Place → List (String × Place)
  | request => [("layers", layers), ("inputs", ids), ("outputs", ids)]
  | layer => [("id", id), ("kerasLayer", descriptor), ("inputLayers", ids), ("outputLayers", ids),
    ("children", layers)]
  | descriptor => [("name", other), ("parameterValues", other)]
  | layers | ids | id | other => []

/-- What is expected as the value of a member. -/
def member (p : Place) (name : String) : Place := (p.fields.lookup name).getD other

/-- What is expected as an element of an array.  A record may be an array of its fields. -/
def element (p : Place) (i : Nat) : Place :=
  match p with
  | layers => layer
  | ids => id
  | p => ((p.fields.map Prod.snd)[i]?).getD other

end Place

/-- The integers that 64 bits can hold, signed or unsigned: from `-2 ^ 63` to `2 ^ 64 - 1`. -/
structure FitsWord (k : Int) : Prop where
  low : -0x8000000000000000 ≤ k
  high : k ≤ 0xffffffffffffffff

/-- The ways to write an integer id: its decimal as a number, or as a string in any spelling. -/
inductive IntegerText (k : Int) : List Char → Prop
  | number : IntegerText k (toString k).toList
  | string {spelled : List Char} (h : Spells spelled (toString k).toList) :
    IntegerText k ('"' :: (spelled ++ ['"']))

/-- The written name of a member stands for a name with the place `q`, if it stands for a name. -/
def LeadsTo (places : String → Place) (written : List Char) (q : Place) : Prop :=
  ∀ name : String, Spells written name.toList → places name = q

mutual
/-- The same JSON value, with some of the integer ids in it written in another way. -/
inductive Respelled : Place → List Char → List Char → Prop
  | scalar {p : Place} {v : List Char} (h : IsScalar v) : Respelled p v v
  | id {k : Int} {v w : List Char} (hk : FitsWord k) (hv : IntegerText k v)
    (hw : IntegerText k w) : Respelled .id v w
  | array {p : Place} {cs ds : List Char} (h : RespelledArray p.element cs ds) :
    Respelled p ('[' :: cs) ('[' :: ds)
  | object {p : Place} {cs ds : List Char} (h : RespelledObject p.member cs ds) :
    Respelled p ('{' :: cs) ('{' :: ds)

/-- The same JSON text with blanks around it. -/
inductive RespelledText : Place → List Char → List Char → Prop
  | mk {p : Place} {before v w after : List Char} (hbefore : Blank before)
    (h : Respelled p v w) (hafter : Blank after) :
    RespelledText p (before ++ (v ++ after)) (before ++ (w ++ after))

/-- The same array after its opening bracket. -/
inductive RespelledArray : (places : Nat → Place) → List Char → List Char → Prop
  | empty {places : Nat → Place} {blanks : List Char} (h : Blank blanks) :
    RespelledArray places (blanks ++ [']']) (blanks ++ [']'])
  | items {places : Nat → Place} {cs ds : List Char} (h : RespelledElements places cs ds) :
    RespelledArray places (cs ++ [']']) (ds ++ [']'])

/-- The same object after its opening bracket. -/
inductive RespelledObject : (places : String → Place) → List Char → List Char → Prop
  | empty {places : String → Place} {blanks : List Char} (h : Blank blanks) :
    RespelledObject places (blanks ++ ['}']) (blanks ++ ['}'])
  | items {places : String → Place} {cs ds : List Char} (h : RespelledMembers places cs ds) :
    RespelledObject places (cs ++ ['}']) (ds ++ ['}'])

/-- The same elements of an array.  The first one stands at the place `places 0`. -/
inductive RespelledElements : (places : Nat → Place) → List Char → List Char → Prop
  | last {places : Nat → Place} {t u : List Char} (ht : RespelledText (places 0) t u) :
    RespelledElements places t u
  | more {places : Nat → Place} {t u cs ds : List Char} (ht : RespelledText (places 0) t u)
    (h : RespelledElements (fun i => places (i + 1)) cs ds) :
    RespelledElements places (t ++ ',' :: cs) (u ++ ',' :: ds)

/-- The same members of an object. -/
inductive RespelledMembers : (places : String → Place) → List Char → List Char → Prop
  | last {places : String → Place} {q : Place} {before name gap t u : List Char}
    (hbefore : Blank before) (hname : IsString name) (hplace : LeadsTo places name q)
    (hgap : Blank gap) (ht : RespelledText q t u) :
    RespelledMembers places (before ++ '"' :: (name ++ '"' :: (gap ++ ':' :: t)))
      (before ++ '"' :: (name ++ '"' :: (gap ++ ':' :: u)))
  | more {places : String → Place} {q : Place} {before name gap t u cs ds : List Char}
    (hbefore : Blank before) (hname : IsString name) (hplace : LeadsTo places name q)
    (hgap : Blank gap) (ht : RespelledText q t u) (h : RespelledMembers places cs ds) :
    RespelledMembers places (before ++ '"' :: (name ++ '"' :: (gap ++ ':' :: (t ++ ',' :: cs))))
      (before ++ '"' :: (name ++ '"' :: (gap ++ ':' :: (u ++ ',' :: ds))))
end

/-! ## Both texts are JSON -/

/-- Integers are written as usual. -/
theorem integerText_eq_toString (k : Int) : Decimal.integerText k = toString k := by
  cases k with
  | ofNat n => rfl
  | negSucc n =>
    show String.ofList ('-' :: Nat.toDigits 10 (n + 1)) =
      "-" ++ String.ofList (Nat.toDigits 10 (n + 1))
    rw [← String.toList_inj]
    simp

/-- The decimal of an integer of 64 bits is a number with that value. -/
theorem FitsWord.exists_numeral {k : Int} (h : FitsWord k) :
    ∃ n, NumeralText n (toString k).toList ∧ n.number? = some (.int k) := by
  rw [← integerText_eq_toString]
  apply exists_numeral_integerText
  · exact h.low
  · exact Int.lt_of_le_sub_one h.high

/-- Whether written as a number or in quotation marks, an integer is a scalar. -/
theorem IntegerText.isScalar {k : Int} {v : List Char} (h : IntegerText k v) (hk : FitsWord k) :
    IsScalar v := by
  cases h with
  | number =>
    obtain ⟨n, htext, _⟩ := hk.exists_numeral
    exact .number htext
  | string h => exact .string h.isString

mutual
/-- Both sides of a respelling are values, … -/
theorem Respelled.isValue {p : Place} {v w : List Char} :
    Respelled p v w → IsValue v ∧ IsValue w
  | .scalar h => ⟨.scalar h, .scalar h⟩
  | .id hk hv hw => ⟨.scalar (hv.isScalar hk), .scalar (hw.isScalar hk)⟩
  | .array (.empty h) => ⟨.emptyArray h, .emptyArray h⟩
  | .array (.items h) => ⟨.array h.isElements.1, .array h.isElements.2⟩
  | .object (.empty h) => ⟨.emptyObject h, .emptyObject h⟩
  | .object (.items h) => ⟨.object h.isMembers.1, .object h.isMembers.2⟩

/-- … with blanks around them … -/
theorem RespelledText.isText {p : Place} {t u : List Char} :
    RespelledText p t u → IsText t ∧ IsText u
  | .mk hbefore h hafter => ⟨.mk hbefore h.isValue.1 hafter, .mk hbefore h.isValue.2 hafter⟩

/-- … or as elements of an array … -/
theorem RespelledElements.isElements {places : Nat → Place} {cs ds : List Char} :
    RespelledElements places cs ds → IsElements cs ∧ IsElements ds
  | .last ht => ⟨.last ht.isText.1, .last ht.isText.2⟩
  | .more ht h => ⟨.more ht.isText.1 h.isElements.1, .more ht.isText.2 h.isElements.2⟩

/-- … or members of an object. -/
private theorem RespelledMembers.isMembers {places : String → Place} {cs ds : List Char} :
    RespelledMembers places cs ds → IsMembers cs ∧ IsMembers ds
  | .last hbefore hname _ hgap ht =>
    ⟨.last hbefore hname hgap ht.isText.1, .last hbefore hname hgap ht.isText.2⟩
  | .more hbefore hname _ hgap ht h =>
    ⟨.more hbefore hname hgap ht.isText.1 h.isMembers.1,
      .more hbefore hname hgap ht.isText.2 h.isMembers.2⟩
end

/-! ## Every text respells itself -/

/-- A name that can be read leads to the place of what it spells. -/
theorem leadsTo_of_spells {written : List Char} {name : String} (h : Spells written name.toList)
    (places : String → Place) : LeadsTo places written (places name) := by
  intro name' h'
  rw [h.unique h']

/-- Every name leads somewhere. -/
private theorem exists_leadsTo (places : String → Place) (written : List Char) :
    ∃ q, LeadsTo places written q := by
  by_cases h : ∃ name : String, Spells written name.toList
  · obtain ⟨name, hname⟩ := h
    exact ⟨places name, leadsTo_of_spells hname places⟩
  · -- A name that cannot be read is refused, so any place will do for what it names.
    exact ⟨.other, fun name hname => absurd ⟨name, hname⟩ h⟩

mutual
/-- Every JSON value is a respelling of itself. -/
theorem Respelled.refl {v : List Char} : IsValue v → ∀ p : Place, Respelled p v v
  | .scalar h, _ => .scalar h
  | .emptyArray h, _ => .array (.empty h)
  | .array h, p => .array (.items (RespelledElements.refl h p.element))
  | .emptyObject h, _ => .object (.empty h)
  | .object h, p => .object (.items (RespelledMembers.refl h p.member))

/-- Nothing has to be respelled. -/
theorem RespelledText.refl {t : List Char} : IsText t → ∀ p : Place, RespelledText p t t
  | .mk hbefore h hafter, p => .mk hbefore (Respelled.refl h p) hafter

theorem RespelledElements.refl {cs : List Char} :
    IsElements cs → ∀ places : Nat → Place, RespelledElements places cs cs
  | .last ht, places => .last (RespelledText.refl ht (places 0))
  | .more ht h, places =>
    .more (RespelledText.refl ht (places 0)) (RespelledElements.refl h fun i => places (i + 1))

theorem RespelledMembers.refl {cs : List Char} :
    IsMembers cs → ∀ places : String → Place, RespelledMembers places cs cs
  | .last hbefore hname hgap ht, places =>
    have ⟨q, hq⟩ := exists_leadsTo places _
    .last hbefore hname hq hgap (RespelledText.refl ht q)
  | .more hbefore hname hgap ht h, places =>
    have ⟨q, hq⟩ := exists_leadsTo places _
    .more hbefore hname hq hgap (RespelledText.refl ht q) (RespelledMembers.refl h places)
end

end Request

end LayerGraph
