import LayerGraph.Json.Value
import LayerGraph.Proofs.Respelling

/-! # Respelled texts are read in lockstep

A reader is made for a place (`ReadsAt`) if it makes the same of all the spellings that may stand
there: it takes the same value from them, or refuses them with the same fault.  Arrays, objects and
records are read in lockstep if what is in them is, by induction on the text of their items.

## Key results

- `RespelledElements.agree`, `RespelledMembers.agree`, `RespelledElements.agree_fields`: the items
  between two brackets
- `readsAt_array`, `readsAt_object`, `readsAt_record`: arrays, objects and records
- `readsAt_anyValue`: values that hold no ids -/

namespace LayerGraph.Request

open Json

variable {α σ : Type} {rest rest' : List Char}

/-- The reader makes the same of all texts that may stand at a place for each other. -/
def ReadsAt (read : Reader α) (p : Place) : Prop :=
  ∀ v w, Respelled p v w → read.Agrees v w

/-- What a reader makes of its result does not matter, … -/
theorem ReadsAt.map {read : Reader α} {p : Place} (h : ReadsAt read p) (f : α → σ) :
    ReadsAt (read.map f) p :=
  fun v w hvw => (h v w hvw).map f

/-- … even if it may refuse it. -/
theorem ReadsAt.check {read : Reader α} {p : Place} (h : ReadsAt read p) (f : α → Option σ) :
    ReadsAt (read.check f) p :=
  fun v w hvw => (h v w hvw).check f

/-- What is skipped may stand anywhere. -/
theorem readsAt_skip (p : Place) : ReadsAt skip p := by
  intro v w h blanks rest rest' hblanks hrest hrest'
  have hv := takes_skip hblanks h.isValue.1 rest hrest
  have hw := takes_skip hblanks h.isValue.2 rest' hrest'
  rw [List.append_assoc] at hv hw
  exact .taken hv hw

/-! ## Arrays -/

/-- A text is read as an item of an array, up to the blanks behind it. -/
theorem RespelledText.agree_item {p : Place} {t u : List Char} (h : RespelledText p t u)
    {read : Reader α} (hread : ReadsAt read p) {first : Bool} {lead : List Char}
    (hlead : Lead first lead) {cs ds : List Char} (hcs : Ended cs) (hds : Ended ds) :
    ∃ after cs' ds', Blank after ∧
      (∃ h, next ']' first (lead ++ (t ++ cs)) = .ok (.item cs' h)) ∧
      (∃ h, next ']' first (lead ++ (u ++ ds)) = .ok (.item ds' h)) ∧
      Agree (read cs') (read ds') (after ++ cs) (after ++ ds) := by
  cases h with
  | @mk _ before v w after hbefore h hafter =>
    have hagree := hread v w h [] _ _ blank_nil (hafter.ended hcs) (hafter.ended hds)
    -- Neither value begins with a blank or a closing bracket, so both are found as items.
    obtain ⟨c, v, rfl, hc, hclosing⟩ := h.isValue.1.eq_cons
    obtain ⟨d, w, rfl, hd, hclosing'⟩ := h.isValue.2.eq_cons
    refine ⟨after, c :: (v ++ (after ++ cs)), d :: (w ++ (after ++ ds)), hafter, ?_, ?_, hagree⟩
    · rw [List.append_assoc before, List.append_assoc]
      exact next_item hlead hbefore hc hclosing (by decide) (v ++ (after ++ cs))
    · rw [List.append_assoc before, List.append_assoc]
      exact next_item hlead hbefore hd hclosing' (by decide) (w ++ (after ++ ds))

/-- At the end of an array both readings end. -/
private theorem agree_elements_closed {item : Reader α} {blanks : List Char}
    (hblanks : Blank blanks) (first : Bool) :
    Agree (elements item first (blanks ++ ']' :: rest))
      (elements item first (blanks ++ ']' :: rest')) rest rest' := by
  obtain ⟨h, hnext⟩ := next_closed ']' hblanks (by decide) first rest
  obtain ⟨h', hnext'⟩ := next_closed ']' hblanks (by decide) first rest'
  rw [elements, hnext, elements, hnext']
  exact .taken ⟨h, rfl⟩ ⟨h', rfl⟩

/-- The elements of an array are read in lockstep. -/
theorem RespelledElements.agree {item : Reader α} {first : Bool} {lead cs ds : List Char}
    {places : Nat → Place} (h : RespelledElements places cs ds)
    (hitem : ∀ i, ReadsAt item (places i)) (hlead : Lead first lead) (rest rest' : List Char) :
    Agree (elements item first (lead ++ (cs ++ ']' :: rest)))
      (elements item first (lead ++ (ds ++ ']' :: rest'))) rest rest' := by
  induction hlength : cs.length using Nat.strongRecOn generalizing places first lead cs ds with
  | ind n ih =>
    -- The induction is on the length, since the rest of the elements is no part of the derivation.
    cases h with
    | last ht =>
      obtain ⟨after, cs', ds', hafter, hnext, hnext', hagree⟩ := ht.agree_item (hitem 0) hlead
        (Bracket.ended_closing .square rest) (Bracket.ended_closing .square rest')
      exact agree_elements_item hnext hnext' hagree (agree_elements_closed hafter false)
    | @more _ t u cs ds ht h =>
      -- The blanks behind the item stand before the comma of the next one.
      obtain ⟨after, cs', ds', hafter, hnext, hnext', hagree⟩ := ht.agree_item (hitem 0) hlead
        (ended_comma (cs ++ ']' :: rest)) (ended_comma (ds ++ ']' :: rest'))
      have hshorter : cs.length < n := by
        simp only [← hlength, List.length_append, List.length_cons]
        omega
      have hlater := ih cs.length hshorter h (fun i => hitem (i + 1)) (.later hafter) rfl
      rw [List.append_assoc, List.append_assoc] at hlater
      rw [List.append_assoc t, List.append_assoc u]
      exact agree_elements_item hnext hnext' hagree hlater

/-- Respelled arrays are read alike, also if they are empty. -/
private theorem RespelledArray.agree {item : Reader α} {places : Nat → Place} {cs ds : List Char}
    (h : RespelledArray places cs ds) (hitem : ∀ i, ReadsAt item (places i))
    (rest rest' : List Char) :
    Agree (elements item true (cs ++ rest)) (elements item true (ds ++ rest')) rest rest' := by
  cases h with
  | empty hblanks =>
    rw [List.append_assoc, List.append_assoc]
    exact agree_elements_closed hblanks true
  | items h =>
    rw [List.append_assoc, List.append_assoc]
    exact h.agree hitem .first rest rest'

/-! ## Objects -/

/-- A text is read as the value of a member, up to the blanks behind it. -/
theorem RespelledText.agree_value {p : Place} {t u : List Char} (h : RespelledText p t u) :
    ∃ after, Blank after ∧ ∀ {read : Reader α}, ReadsAt read p → ∀ {cs ds}, Ended cs → Ended ds →
      Agree (read (t ++ cs)) (read (u ++ ds)) (after ++ cs) (after ++ ds) := by
  cases h with
  | @mk _ before v w after hbefore h hafter =>
    refine ⟨after, hafter, fun hread cs ds hcs hds => ?_⟩
    have hagree := hread v w h before _ _ hbefore (hafter.ended hcs) (hafter.ended hds)
    rw [List.append_assoc before, List.append_assoc v, List.append_assoc before,
      List.append_assoc w]
    exact hagree

/-- A member with something behind it. -/
private theorem memberText_append (before name gap t cs : List Char) :
    before ++ '"' :: (name ++ '"' :: (gap ++ ':' :: t)) ++ cs =
      before ++ '"' :: (name ++ '"' :: (gap ++ ':' :: (t ++ cs))) := by
  simp

section Members

variable {member : σ → String → Except Fault (Reader σ)} {places : String → Place}

/-- At the end of an object both readings end. -/
private theorem agree_members_closed {blanks : List Char} (hblanks : Blank blanks) (first : Bool)
    (s : σ) :
    Agree (members member first s (blanks ++ '}' :: rest))
      (members member first s (blanks ++ '}' :: rest')) rest rest' :=
  .taken (yields_members_nil member first s hblanks rest)
    (yields_members_nil member first s hblanks rest')

/-- One member is read in lockstep, if what comes after it is. -/
theorem RespelledText.agree_member {p : Place} {first : Bool}
    {lead before name gap t u cs ds : List Char} {s : σ} (ht : RespelledText p t u)
    (hmember : ∀ s name read, member s name = .ok read → ReadsAt read (places name))
    (hlead : Lead first lead) (hbefore : Blank before) (hname : IsString name)
    (hplace : LeadsTo places name p) (hgap : Blank gap) (hcs : Ended cs) (hds : Ended ds)
    (hlater : ∀ after, Blank after → ∀ s', Agree (members member false s' (after ++ cs))
      (members member false s' (after ++ ds)) rest rest') :
    Agree
      (members member first s
        (lead ++ (before ++ '"' :: (name ++ '"' :: (gap ++ ':' :: (t ++ cs))))))
      (members member first s
        (lead ++ (before ++ '"' :: (name ++ '"' :: (gap ++ ':' :: (u ++ ds))))))
      rest rest' := by
  obtain ⟨after, hafter, hvalue⟩ := ht.agree_value (α := σ)
  apply agree_members_item
    (next_item hlead hbefore (by decide) (by decide) (by decide) _)
    (next_item hlead hbefore (by decide) (by decide) (by decide) _) hname hgap _
    (hlater after hafter)
  -- A name that spells a key leads to the place of this key.
  intro key read hkey hread
  have hat := hmember s key read hread
  rw [hplace key hkey] at hat
  exact hvalue hat hcs hds

/-- The members of an object are read in lockstep. -/
theorem RespelledMembers.agree {first : Bool} {lead cs ds : List Char}
    (h : RespelledMembers places cs ds)
    (hmember : ∀ s name read, member s name = .ok read → ReadsAt read (places name))
    (hlead : Lead first lead) (rest rest' : List Char) (s : σ) :
    Agree (members member first s (lead ++ (cs ++ '}' :: rest)))
      (members member first s (lead ++ (ds ++ '}' :: rest'))) rest rest' := by
  induction hlength : cs.length using Nat.strongRecOn generalizing first lead cs ds s with
  | ind n ih =>
    cases h with
    | @last _ q before name gap t u hbefore hname hplace hgap ht =>
      rw [memberText_append, memberText_append]
      exact ht.agree_member hmember hlead hbefore hname hplace hgap
        (Bracket.ended_closing .curly rest) (Bracket.ended_closing .curly rest')
        fun after hafter s' => agree_members_closed hafter false s'
    | @more _ q before name gap t u cs ds hbefore hname hplace hgap ht h =>
      rw [memberText_append, memberText_append, List.append_assoc t, List.append_assoc u]
      apply ht.agree_member hmember hlead hbefore hname hplace hgap (ended_comma _) (ended_comma _)
      intro after hafter s'
      -- The blanks behind the value are carried over, so the induction is on the length here too.
      have hshorter : cs.length < n := by
        simp only [← hlength, List.length_append, List.length_cons]
        omega
      have hlater := ih cs.length hshorter h (.later hafter) s' rfl
      rwa [List.append_assoc, List.append_assoc] at hlater

/-- Respelled objects are read alike, also if they are empty. -/
private theorem RespelledObject.agree {cs ds : List Char} (h : RespelledObject places cs ds)
    (hmember : ∀ s name read, member s name = .ok read → ReadsAt read (places name)) (s : σ)
    (rest rest' : List Char) :
    Agree (members member true s (cs ++ rest)) (members member true s (ds ++ rest'))
      rest rest' := by
  cases h with
  | empty hblanks =>
    rw [List.append_assoc, List.append_assoc]
    exact agree_members_closed hblanks true s
  | items h =>
    rw [List.append_assoc, List.append_assoc]
    exact h.agree hmember .first rest rest' s

end Members

/-! ## Records as arrays -/

/-- The fields of a record are read at the places of an array. -/
def FieldsRead : List (RecordField σ) → (places : Nat → Place) → Prop
  | [], _ => True
  | f :: fields, places => ReadsAt f.read (places 0) ∧ FieldsRead fields fun i => places (i + 1)

section Fields

variable {places : Nat → Place} {first : Bool} {lead cs ds : List Char}

/-- At the end of an array both records end, whether or not a field is missing. -/
private theorem agree_fieldElements_closed (fields : List (RecordField σ)) {blanks : List Char}
    (hblanks : Blank blanks) (first : Bool) (d : Draft σ) :
    Agree (fieldElements fields first d (blanks ++ ']' :: rest))
      (fieldElements fields first d (blanks ++ ']' :: rest')) rest rest' := by
  cases fields with
  | nil =>
    apply (yields_mark hblanks (by decide) rest).bind_agree (yields_mark hblanks (by decide) rest')
    intro hlt hlt'
    exact .taken ⟨hlt, rfl⟩ ⟨hlt', rfl⟩
  | cons f fields =>
    exact .taken (fieldElements_closed f fields d (next_closed ']' hblanks (by decide) first rest))
      (fieldElements_closed f fields d (next_closed ']' hblanks (by decide) first rest'))

/-- An array with more elements than there are fields is refused. -/
theorem fieldElements_nil_of_isElements (hlead : Lead first lead) (h : IsElements cs)
    (d : Draft σ) (rest : List Char) :
    fieldElements [] first d (lead ++ (cs ++ rest)) = .error .malformed := by
  have hmark : mark ']' (lead ++ (cs ++ rest)) = .error .malformed := by
    cases hlead with
    | first =>
      -- Where the end is due, there is an element or a comma.
      obtain ⟨c, more, hc, hfront⟩ := h.yields_front rest
      exact mark_of_front hfront hc
    | later hgap =>
      rw [List.append_assoc]
      exact mark_of_front (yields_front hgap (c := ',') (by decide) (cs ++ rest)) (by decide)
  show (mark ']' (lead ++ (cs ++ rest)) >>= _) = _
  rw [hmark]
  rfl

/-- The fields of a record that is written as an array are read in lockstep. -/
theorem RespelledElements.agree_fields {fields : List (RecordField σ)}
    (h : RespelledElements places cs ds) (hfields : FieldsRead fields places)
    (hlead : Lead first lead) (d : Draft σ) :
    Agree (fieldElements fields first d (lead ++ (cs ++ ']' :: rest)))
      (fieldElements fields first d (lead ++ (ds ++ ']' :: rest'))) rest rest' := by
  induction fields generalizing places first lead cs ds d with
  | nil =>
    -- More elements than fields are refused.
    exact .refused (fieldElements_nil_of_isElements hlead h.isElements.1 d _)
      (fieldElements_nil_of_isElements hlead h.isElements.2 d _)
  | cons f fields ih =>
    cases h with
    | last ht =>
      obtain ⟨after, cs', ds', hafter, hnext, hnext', hagree⟩ := ht.agree_item hfields.1 hlead
        (Bracket.ended_closing .square rest) (Bracket.ended_closing .square rest')
      exact agree_fieldElements_item hnext hnext' hagree
        fun d' => agree_fieldElements_closed fields hafter false d'
    | @more _ t u cs ds ht h =>
      obtain ⟨after, cs', ds', hafter, hnext, hnext', hagree⟩ := ht.agree_item hfields.1 hlead
        (ended_comma (cs ++ ']' :: rest)) (ended_comma (ds ++ ']' :: rest'))
      rw [List.append_assoc t, List.append_assoc u]
      apply agree_fieldElements_item hnext hnext' hagree
      intro d'
      have hlater := ih h hfields.2 (.later hafter) d'
      rwa [List.append_assoc, List.append_assoc] at hlater

/-- Respelled records are read alike from arrays. -/
private theorem RespelledArray.agree_fields (h : RespelledArray places cs ds)
    {fields : List (RecordField σ)} (hfields : FieldsRead fields places) (d : Draft σ)
    (rest rest' : List Char) :
    Agree (fieldElements fields true d (cs ++ rest)) (fieldElements fields true d (ds ++ rest'))
      rest rest' := by
  cases h with
  | empty hblanks =>
    rw [List.append_assoc, List.append_assoc]
    exact agree_fieldElements_closed fields hblanks true d
  | items h =>
    rw [List.append_assoc, List.append_assoc]
    exact h.agree_fields hfields .first d

end Fields

/-! ## Readers at their places

The place of an id is left out here, since an id is the only thing whose spellings differ. -/

/-- A string that is not an id is not respelled. -/
theorem readsAt_string {p : Place} (hp : p ≠ .id) : ReadsAt string p := by
  intro v w h
  cases h with
  | id => exact absurd rfl hp
  | array | object =>
    -- Anything else than a string is refused at its first character.
    intro blanks rest rest' hblanks _ _
    exact agree_afterBlanks hblanks (by decide) (by decide) (.refused rfl rfl)
  | scalar h =>
    have hscalar := h
    cases h with
    | string h =>
      intro blanks rest rest' hblanks _ _
      apply agree_afterBlanks hblanks (by decide) (by decide)
      rw [List.append_eq, List.append_eq, List.append_assoc, List.append_assoc]
      exact (agree_stringBody h rest rest').past '"'
    | nullWord | trueWord | falseWord => exact agrees_of_wrongType hscalar fun rest => rfl
    | number h =>
      obtain ⟨c, cs, rfl, hc⟩ := h.eq_cons
      have hquote : c ≠ '"' := ne_of_startsNumber hc (by decide)
      exact agrees_of_wrongType hscalar fun rest => by simp [hquote]

/-- What may be null is read alike if it is so when it is not. -/
theorem readsAt_nullable {read : Reader α} {p : Place} (hp : p ≠ .id) (hread : ReadsAt read p) :
    ReadsAt (nullable read) p := by
  intro v w h blanks rest rest' hblanks hrest hrest'
  have hsome := (hread.map some) v w h [] rest rest' blank_nil hrest hrest'
  cases h with
  | id => exact absurd rfl hp
  | array | object => exact agree_afterBlanks hblanks (by decide) (by decide) hsome
  | scalar h =>
    cases h with
    | nullWord =>
      -- Only the word itself is taken for null, everything else goes to the reader.
      exact agree_afterBlanks hblanks (by decide) (by decide)
        (.taken (yields_word none "ull".toList 'n' rest) (yields_word none "ull".toList 'n' rest'))
    | trueWord | falseWord | string => exact agree_afterBlanks hblanks (by decide) (by decide) hsome
    | number h =>
      obtain ⟨c, cs, rfl, hc⟩ := h.eq_cons
      have hnull : c ≠ 'n' := ne_of_startsNumber hc (by decide)
      have hblank := isBlank_of_startsNumber hc
      apply agree_afterBlanks hblanks hblank hblank
      simpa [hnull] using hsome

/-- Arrays are read alike if their elements are, … -/
theorem readsAt_array {item : Option (Reader α)} {p : Place} (hp : p ≠ .id)
    (hitem : ∀ read ∈ item, ∀ i, ReadsAt read (p.element i)) : ReadsAt (array item) p := by
  intro v w h
  cases h with
  | id => exact absurd rfl hp
  | scalar h =>
    obtain ⟨c, cs, rfl, _, hsquare, _⟩ := h.eq_cons
    exact agrees_of_wrongType h fun rest => by simp [hsquare]
  | object =>
    intro blanks rest rest' hblanks _ _
    exact agree_afterBlanks hblanks (by decide) (by decide) (.refused rfl rfl)
  | array h =>
    intro blanks rest rest' hblanks _ _
    apply agree_afterBlanks hblanks (by decide) (by decide)
    cases item with
    | none => exact .refused rfl rfl
    | some read => exact (h.agree (hitem read rfl) rest rest').past '['

/-- … and objects if their members are. -/
theorem readsAt_object {member : Option (σ → String → Except Fault (Reader σ))} {s : σ} {p : Place}
    (hp : p ≠ .id) (hmember : ∀ m ∈ member, ∀ s name read, m s name = .ok read →
      ReadsAt read (p.member name)) : ReadsAt (object member s) p := by
  intro v w h
  cases h with
  | id => exact absurd rfl hp
  | scalar h =>
    obtain ⟨c, cs, rfl, _, _, hcurly, _⟩ := h.eq_cons
    exact agrees_of_wrongType h fun rest => by simp [hcurly]
  | array =>
    intro blanks rest rest' hblanks _ _
    exact agree_afterBlanks hblanks (by decide) (by decide) (.refused rfl rfl)
  | object h =>
    intro blanks rest rest' hblanks _ _
    apply agree_afterBlanks hblanks (by decide) (by decide)
    cases member with
    | none => exact .refused rfl rfl
    | some m => exact (h.agree (hmember m rfl) s rest rest').past '{'

/-! ## Records -/

/-- The readers of a record's fields are made for what is expected there. -/
def FieldsMatch (fields : List (RecordField σ)) (entries : List (String × Place)) : Prop :=
  List.Forall₂ (fun f e => f.name = e.1 ∧ ReadsAt f.read e.2) fields entries

section FieldsMatch

variable {fields : List (RecordField σ)} {entries : List (String × Place)}

/-- The field that a name finds stands at the place that the name finds. -/
theorem FieldsMatch.find? (h : FieldsMatch fields entries) {name : String} {f : RecordField σ}
    (hf : fields.find? (fun f => f.name = name) = some f) :
    ReadsAt f.read ((entries.lookup name).getD .other) := by
  induction h with
  | nil => cases hf
  | @cons g e fields entries hge _ ih =>
    obtain ⟨key, q⟩ := e
    obtain ⟨rfl, hread⟩ := hge
    -- The first field of the name is the one that is looked up.
    by_cases hname : g.name = name
    · subst hname
      simp only [List.find?_cons, decide_true, Option.some.injEq] at hf
      subst hf
      simpa using hread
    · rw [List.find?_cons_of_neg (by simpa using hname)] at hf
      have hlookup : (name == g.name) = false := by simpa using Ne.symm hname
      rw [List.lookup_cons, hlookup]
      exact ih hf

/-- Fields that are read alike by name are read alike by position. -/
private theorem FieldsMatch.fieldsRead (h : FieldsMatch fields entries) :
    FieldsRead fields fun i => ((entries.map Prod.snd)[i]?).getD .other := by
  induction h with
  | nil => exact trivial
  | cons hge _ ih => exact ⟨hge.2, ih⟩

/-- A member of a record is read at its place, whether it is a field or skipped. -/
theorem FieldsMatch.readsAt_fieldMember {p : Place} (h : FieldsMatch fields p.fields)
    {d : Draft σ} {name : String} {read : Reader (Draft σ)}
    (hread : fieldMember fields d name = .ok read) : ReadsAt read (p.member name) := by
  rw [fieldMember] at hread
  split at hread
  · next f hf =>
    split at hread
    · cases hread
    · cases hread
      exact (h.find? hf).map _
  · cases hread
    exact (readsAt_skip _).map _

end FieldsMatch

/-- A record is read in lockstep, as an object or as an array, if its fields are. -/
theorem readsAt_record {fields : Option (List (RecordField σ))} {blank : σ} {p : Place}
    (hp : p.fields ≠ []) (hfields : ∀ fs ∈ fields, FieldsMatch fs p.fields) :
    ReadsAt (record fields blank) p := by
  -- A place with fields is none of those with a place of their own for all elements.
  have helement : p.element = fun i => ((p.fields.map Prod.snd)[i]?).getD .other := by
    cases p with
    | request | layer | descriptor => rfl
    | layers | ids | id | other => exact absurd rfl hp
  apply ReadsAt.check
  intro v w h
  cases h with
  | id => exact absurd rfl hp
  | scalar h =>
    obtain ⟨c, cs, rfl, _, hsquare, hcurly, _⟩ := h.eq_cons
    exact agrees_of_wrongType h fun rest => by simp [hsquare, hcurly]
  | object h =>
    intro blanks rest rest' hblanks _ _
    apply agree_afterBlanks hblanks (by decide) (by decide)
    cases fields with
    | none => exact .refused rfl rfl
    | some fs =>
      have hmatch := hfields fs rfl
      exact (h.agree (fun _ _ _ => hmatch.readsAt_fieldMember) _ rest rest').past '{'
  | array h =>
    -- As an array the fields are told apart by their positions.
    intro blanks rest rest' hblanks _ _
    apply agree_afterBlanks hblanks (by decide) (by decide)
    cases fields with
    | none => exact .refused rfl rfl
    | some fs =>
      have hmatch := hfields fs rfl
      rw [helement] at h
      exact (h.agree_fields hmatch.fieldsRead _ rest rest').past '['

/-! ## Values without ids -/

/-- Scalars are read alike wherever they stand. -/
private theorem agrees_anyValue_scalar (depth : Nat) {v : List Char} (h : IsScalar v) :
    (anyValue depth).Agrees v v := by
  intro blanks rest rest' hblanks hrest hrest'
  have hscalar : Agree (scalar.map some (v ++ rest)) (scalar.map some (v ++ rest')) rest rest' := by
    apply (agree_scalar h hrest hrest').bind
    intro a hlt hlt'
    exact .taken ⟨hlt, rfl⟩ ⟨hlt', rfl⟩
  obtain ⟨c, cs, rfl, hblank, hsquare, hcurly, _⟩ := h.eq_cons
  rw [anyValue]
  apply agree_afterBlanks hblanks hblank hblank
  simpa [hsquare, hcurly] using hscalar

/-- Values are read in lockstep where no ids are expected. -/
theorem readsAt_anyValue (depth : Nat) : ReadsAt (anyValue depth) .other := by
  induction depth with
  | zero =>
    -- No bracket may be opened at this depth.
    intro v w h
    cases h with
    | scalar h => exact agrees_anyValue_scalar 0 h
    | array | object =>
      intro blanks rest rest' hblanks _ _
      rw [anyValue]
      exact agree_afterBlanks hblanks (by decide) (by decide) (.refused rfl rfl)
  | succ depth ih =>
    intro v w h
    cases h with
    | scalar h => exact agrees_anyValue_scalar (depth + 1) h
    | array h =>
      intro blanks rest rest' hblanks _ _
      rw [anyValue]
      apply agree_afterBlanks hblanks (by decide) (by decide)
      apply (h.agree (fun _ => ih) rest rest').bind
      intro items hlt hlt'
      exact .taken ⟨Nat.lt_succ_of_lt hlt, rfl⟩ ⟨Nat.lt_succ_of_lt hlt', rfl⟩
    | object h =>
      intro blanks rest rest' hblanks _ _
      -- The members of an object that nothing knows are read and forgotten.
      have hmember : ∀ (s : Unit) (name : String) (read : Reader Unit),
          Except.ok ((anyValue depth).map fun _ => ()) = Except.ok (ε := Fault) read →
          ReadsAt read (Place.member .other name) := by
        rintro s name read heq
        cases heq
        exact ih.map _
      rw [anyValue]
      apply agree_afterBlanks hblanks (by decide) (by decide)
      apply (h.agree hmember () rest rest').bind
      intro s hlt hlt'
      exact .taken ⟨Nat.lt_succ_of_lt hlt, rfl⟩ ⟨Nat.lt_succ_of_lt hlt', rfl⟩

end LayerGraph.Request
