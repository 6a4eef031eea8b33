import LayerGraph.Json.Record
import LayerGraph.Json.Writer
import LayerGraph.Proofs.Json.Skipping
import Mathlib.Data.List.Forall2

/-! # Arrays, objects and records

Arrays and objects are read item by item.  What a reader makes of an object is said by
`TakesMembers`, which follows the state from one member to the next.  In a record, members that are
not fields leave the state alone, so they may be put in anywhere (`TakesMembers.interspersed`).

## Key results

- `takes_array`: an array is read if its elements are
- `takes_object`, `takes_record`: an object or record is read as its members say
- `TakesMembers.interspersed`: members with other names make no difference to a record
- `FieldTexts.takes_record`: a record is read from the texts of its fields -/

namespace LayerGraph.Json

variable {α σ : Type}

/-- Items with commas between them. -/
def commas : List (List Char) → List Char
  | [] => []
  | t :: ts => t ++ ts.flatMap fun u => ',' :: u

/-- Joining with commas, character by character. -/
private theorem toList_join (ss : List String) :
    (Text.join "," ss).toList = commas (ss.map String.toList) := by
  induction ss with
  | nil => rfl
  | cons s ss ih =>
    cases ss with
    | nil => simp [Text.join, commas]
    | cons s' ss => simp [Text.join, ih, commas]

/-- An array is its elements with commas between brackets. -/
theorem toList_arrayText (elements : List String) :
    (arrayText elements).toList = '[' :: (commas (elements.map String.toList) ++ [']']) := by
  simp [arrayText, toList_join]

/-- A member as it is written: a name in some spelling and the text of a value. -/
inductive MemberText (name : String) (value : List Char) : List Char → Prop
  | mk {before spelled gap after : List Char} (hbefore : Blank before)
    (hname : Spells spelled name.toList) (hgap : Blank gap) (hafter : Blank after) :
    MemberText name value (before ++ '"' :: (spelled ++ '"' :: (gap ++ ':' :: (value ++ after))))

/-- The parts of a member, with something behind it. -/
theorem MemberText.append_eq {name : String} {value t : List Char} (h : MemberText name value t) :
    ∃ before spelled gap after : List Char, Blank before ∧ Spells spelled name.toList ∧
      Blank gap ∧ Blank after ∧ ∀ rest, t ++ rest =
        before ++ '"' :: (spelled ++ '"' :: (gap ++ ':' :: (value ++ (after ++ rest)))) := by
  cases h with
  | mk hbefore hname hgap hafter =>
    exact ⟨_, _, _, _, hbefore, hname, hgap, hafter, fun rest => by simp⟩

/-- A member without blanks. -/
def member (name : String) (value : List Char) : List Char :=
  (quote name).toList ++ ':' :: value

/-- A member as it is written is one of its texts. -/
theorem memberText_member (name : String) (value : List Char) :
    MemberText name value (member name value) := by
  have htext : MemberText name value _ :=
    .mk blank_nil (spells_escape name.toList) blank_nil blank_nil
  simpa [member, toList_quote] using htext

/-- An object is its members with commas between braces. -/
theorem toList_objectText (ms : List (String × String)) :
    (objectText ms).toList = '{' :: (commas (ms.map fun m => member m.1 m.2.toList) ++ ['}']) := by
  simp [objectText, toList_join, member, Function.comp_def]

/-! ## What comes next -/

section Next

variable (closing : Char) {blanks : List Char} {c : Char}

/-- At the closing mark there is no next item. -/
theorem next_closed (hblanks : Blank blanks) (hclosing : isBlank closing = false) (first : Bool)
    (rest : List Char) :
    ∃ h, next closing first (blanks ++ closing :: rest) = .ok (.closed rest h) := by
  obtain ⟨h, heq⟩ := yields_front hblanks hclosing rest
  exact ⟨h, by simp [next, heq, bind, Except.bind, pure, Except.pure]⟩

/-- The first item begins with whatever is not blank, … -/
theorem next_first (hblanks : Blank blanks) (hc : isBlank c = false) (hne : c ≠ closing)
    (cs : List Char) :
    ∃ h, next closing true (blanks ++ c :: cs) = .ok (.item (c :: cs) h) := by
  obtain ⟨h, heq⟩ := yields_front hblanks hc cs
  exact ⟨h, by simp [next, heq, hne, bind, Except.bind, pure, Except.pure]⟩

/-- … and later ones behind a comma. -/
theorem next_later {gap : List Char} (hgap : Blank gap) (hblanks : Blank blanks)
    (hc : isBlank c = false) (hne : c ≠ closing) (hclosing : closing ≠ ',') (cs : List Char) :
    ∃ h, next closing false (gap ++ ',' :: (blanks ++ c :: cs)) = .ok (.item (c :: cs) h) := by
  obtain ⟨h, heq⟩ := yields_front hgap (c := ',') (by decide) (blanks ++ c :: cs)
  obtain ⟨h', heq'⟩ := yields_front hblanks hc cs
  exact ⟨by simp only [List.length_cons, List.length_append]; omega,
    by simp [next, heq, heq', hne, hclosing.symm, bind, Except.bind, pure, Except.pure]⟩

end Next

/-- The later items of an array or object do not go on with a number. -/
theorem ended_later (top : Bracket) (ts : List (List Char)) (rest : List Char) :
    Ended ((ts.flatMap fun u => ',' :: u) ++ top.closing :: rest) := by
  cases ts with
  | nil => exact top.ended_closing rest
  | cons t ts => exact ended_cons (by decide)

/-! ## Arrays -/

/-- A text that the reader of an array's elements takes for one. -/
structure TakesElement (item : Reader α) (t : List Char) (v : α) : Prop where
  takes : item.Takes t v
  starts : ∃ c cs, t = c :: cs ∧ isBlank c = false ∧ c ≠ ']'

/-- One step of reading elements. -/
private theorem yields_elements_cons {item : Reader α} {first : Bool} {cs cs' cs'' rest : List Char}
    {v : α} {vs : List α} (hnext : ∃ h, next ']' first cs = .ok (.item cs' h))
    (hitem : Yields (item cs') v cs'') (hlater : Yields (elements item false cs'') vs rest) :
    Yields (elements item first cs) (v :: vs) rest := by
  obtain ⟨h, hnext⟩ := hnext
  rw [elements, hnext]
  apply hitem.bind
  intro hlt
  apply hlater.bind
  intro hlt'
  exact ⟨by omega, rfl⟩

private theorem yields_elements_nil {item : Reader α} (first : Bool) (rest : List Char) :
    Yields (elements item first (']' :: rest)) [] rest := by
  obtain ⟨h, hnext⟩ : ∃ h, next ']' first (']' :: rest) = .ok (.closed rest h) :=
    next_closed ']' blank_nil (by decide) first rest
  rw [elements, hnext]
  exact ⟨h, rfl⟩

/-- The elements behind the first one, each with its comma. -/
private theorem yields_elements_later {item : Reader α} {ts : List (List Char)} {vs : List α}
    (h : List.Forall₂ (TakesElement item) ts vs) (rest : List Char) :
    Yields (elements item false ((ts.flatMap fun u => ',' :: u) ++ ']' :: rest)) vs rest := by
  induction h with
  | nil => exact yields_elements_nil false rest
  | @cons t v ts vs ht _ ih =>
    have hitem := ht.takes _ (ended_later .square ts rest)
    obtain ⟨c, cs, rfl, hblank, hc⟩ := ht.starts
    rw [List.flatMap_cons, List.append_assoc]
    exact yields_elements_cons (next_later ']' blank_nil blank_nil hblank hc (by decide) _) hitem ih

/-- An array is read element by element. -/
theorem yields_elements {item : Reader α} {ts : List (List Char)} {vs : List α}
    (h : List.Forall₂ (TakesElement item) ts vs) (rest : List Char) :
    Yields (elements item true (commas ts ++ ']' :: rest)) vs rest := by
  cases h with
  | nil => exact yields_elements_nil true rest
  | @cons t v ts vs ht hts =>
    have hitem := ht.takes _ (ended_later .square ts rest)
    obtain ⟨c, cs, rfl, hblank, hc⟩ := ht.starts
    rw [commas, List.append_assoc]
    exact yields_elements_cons (next_first ']' blank_nil hblank hc _) hitem
      (yields_elements_later hts rest)

/-- An array is read if its elements are. -/
theorem takes_array {item : Reader α} {ts : List (List Char)} {vs : List α}
    (h : List.Forall₂ (TakesElement item) ts vs) :
    (array (some item)).Takes ('[' :: (commas ts ++ [']'])) vs := by
  intro rest hrest
  apply yields_afterBlanks blank_nil (by decide)
  rw [List.append_eq, List.append_assoc]
  apply (yields_elements h rest).bind
  intro hlt
  exact ⟨Nat.lt_succ_of_lt hlt, rfl⟩

/-! ## Objects -/

/-- The reader of members goes from the state `s` to the state `s'`. -/
inductive TakesMembers (member : σ → String → Except Fault (Reader σ)) :
    (s : σ) → (ts : List (List Char)) → (s' : σ) → Prop
  | nil (s : σ) : TakesMembers member s [] s
  | cons {s s' s'' : σ} {name : String} {read : Reader σ} {value t : List Char}
    {ts : List (List Char)} (ht : MemberText name value t) (hmember : member s name = .ok read)
    (hread : read.Takes value s') (h : TakesMembers member s' ts s'') :
    TakesMembers member s (t :: ts) s''

/-- At the closing brace what has been read is the result. -/
theorem yields_members_nil (member : σ → String → Except Fault (Reader σ)) (first : Bool) (s : σ)
    {blanks : List Char} (hblanks : Blank blanks) (rest : List Char) :
    Yields (members member first s (blanks ++ '}' :: rest)) s rest := by
  obtain ⟨h, hnext⟩ := next_closed '}' hblanks (by decide) first rest
  rw [members, hnext]
  exact ⟨h, rfl⟩

/-- One step of reading members. -/
private theorem yields_members_cons {member : σ → String → Except Fault (Reader σ)} {first : Bool}
    {s s' s'' : σ} {name : String} {read : Reader σ} {cs spelled gap cs' cs'' rest : List Char}
    (hnext : ∃ h, next '}' first cs =
      .ok (.item ('"' :: (spelled ++ '"' :: (gap ++ ':' :: cs'))) h))
    (hname : Spells spelled name.toList) (hmember : member s name = .ok read) (hgap : Blank gap)
    (hread : Yields (read cs') s' cs'') (hlater : Yields (members member false s' cs'') s'' rest) :
    Yields (members member first s cs) s'' rest := by
  obtain ⟨h, hnext⟩ := hnext
  rw [members, hnext]
  -- The name, the colon and the value are read, and then the other members.
  apply (yields_quoted blank_nil hname _).bind
  intro h₁
  dsimp only
  rw [hmember]
  apply (yields_mark hgap (by decide) cs').bind
  intro h₂
  apply hread.bind
  intro h₃
  apply hlater.bind
  intro h₄
  exact ⟨_, rfl⟩

/-- The text that is left after a member starts with the blanks after its value. -/
theorem yields_members_later {member : σ → String → Except Fault (Reader σ)} {s s' : σ}
    {ts : List (List Char)} (h : TakesMembers member s ts s') {blanks : List Char}
    (hblanks : Blank blanks) (rest : List Char) :
    Yields (members member false s (blanks ++ ((ts.flatMap fun u => ',' :: u) ++ '}' :: rest)))
      s' rest := by
  induction h generalizing blanks with
  | nil s => exact yields_members_nil member false s hblanks rest
  | @cons s s' s'' name read value t ts ht hmember hread _ ih =>
    obtain ⟨before, spelled, gap, after, hbefore, hname, hgap, hafter, hsplit⟩ := ht.append_eq
    -- The reader of the value stops before the blanks, so the next round starts with them.
    have hvalue := hread _ (hafter.ended (ended_later .curly ts rest))
    rw [List.flatMap_cons, List.append_assoc, List.cons_append, hsplit]
    exact yields_members_cons
      (next_later '}' hblanks hbefore (by decide) (by decide) (by decide) _)
      hname hmember hgap hvalue (ih hafter)

/-- An object is read member by member. -/
private theorem yields_members {member : σ → String → Except Fault (Reader σ)} {s s' : σ}
    {ts : List (List Char)} (h : TakesMembers member s ts s') (rest : List Char) :
    Yields (members member true s (commas ts ++ '}' :: rest)) s' rest := by
  cases h with
  | nil => exact yields_members_nil member true s blank_nil rest
  | @cons _ s' _ name read value t ts ht hmember hread hts =>
    obtain ⟨before, spelled, gap, after, hbefore, hname, hgap, hafter, hsplit⟩ := ht.append_eq
    have hvalue := hread _ (hafter.ended (ended_later .curly ts rest))
    rw [commas, List.append_assoc, hsplit]
    exact yields_members_cons (next_first '}' hbefore (by decide) (by decide) _)
      hname hmember hgap hvalue (yields_members_later hts hafter rest)

/-- An object is read as its members say. -/
theorem takes_object {member : σ → String → Except Fault (Reader σ)} {s s' : σ}
    {ts : List (List Char)} (h : TakesMembers member s ts s') :
    (object (some member) s).Takes ('{' :: (commas ts ++ ['}'])) s' := by
  intro rest hrest
  apply yields_afterBlanks blank_nil (by decide)
  rw [List.append_eq, List.append_assoc]
  apply (yields_members h rest).bind
  intro hlt
  exact ⟨Nat.lt_succ_of_lt hlt, rfl⟩

/-! ## Records -/

section Records

variable {fields : List (RecordField σ)} {d d' : Draft σ} {ts : List (List Char)}

/-- A record is read as its members say, if none is missing. -/
theorem takes_record {blank s : σ} (h : TakesMembers (fieldMember fields) ⟨blank, []⟩ ts d)
    (hfinish : d.finish? fields = some s) :
    (record (some fields) blank).Takes ('{' :: (commas ts ++ ['}'])) s := by
  apply Reader.Takes.check (v := d) _ hfinish
  intro rest hrest
  apply yields_afterBlanks blank_nil (by decide)
  rw [List.append_eq, List.append_assoc]
  apply (yields_members h rest).bind
  intro hlt
  exact ⟨Nat.lt_succ_of_lt hlt, rfl⟩

/-- The texts of some of the fields, in their order.  Reading them turns the record `s` into
    `s'`. -/
inductive FieldTexts : (fs : List (RecordField σ)) → (ms : List (String × List Char)) →
    (s s' : σ) → Prop
  | nil (s : σ) : FieldTexts [] [] s s
  | given {f : RecordField σ} {fs : List (RecordField σ)} {ms : List (String × List Char)}
    {value : List Char} {change : σ → σ} {s s' : σ} (hread : f.read.Takes value change)
    (h : FieldTexts fs ms (change s) s') : FieldTexts (f :: fs) ((f.name, value) :: ms) s s'
  | missing {f : RecordField σ} {fs : List (RecordField σ)} {ms : List (String × List Char)}
    {s s' : σ} (hneeded : f.needed = false) (h : FieldTexts fs ms s s') :
    FieldTexts (f :: fs) ms s s'

/-- Among distinct names a field is found by its own. -/
private theorem find?_name {f : RecordField σ} (hnames : (fields.map RecordField.name).Nodup)
    (hf : f ∈ fields) : fields.find? (fun g => g.name = f.name) = some f := by
  induction fields with
  | nil => cases hf
  | cons g fields ih =>
    rw [List.map_cons, List.nodup_cons] at hnames
    rcases List.mem_cons.mp hf with rfl | hf
    · simp
    · have hne : g.name ≠ f.name := fun heq => hnames.1 (heq ▸ List.mem_map_of_mem hf)
      simp [hne, ih hnames.2 hf]

/-- The members for some of the fields are read, and the ones that are needed are among them. -/
theorem FieldTexts.takesMembers (hnames : (fields.map RecordField.name).Nodup)
    {fs : List (RecordField σ)} {ms : List (String × List Char)} {s s' : σ}
    (h : FieldTexts fs ms s s') (hfs : fs.Sublist fields) {given : List String}
    (hgiven : ∀ f ∈ fs, f.name ∉ given) :
    ∃ given', TakesMembers (fieldMember fields) ⟨s, given⟩ (ms.map fun m => member m.1 m.2)
        ⟨s', given'⟩ ∧
      given ⊆ given' ∧ ∀ f ∈ fs, f.needed = true → f.name ∈ given' := by
  induction h generalizing given with
  | nil s => exact ⟨given, .nil _, fun _ h => h, nofun⟩
  | @given f fs ms value change s s' hread _ ih =>
    rw [List.forall_mem_cons] at hgiven
    -- The later fields have other names, so they can still be given after this one.
    have hdistinct := hnames.sublist (hfs.map _)
    rw [List.map_cons, List.nodup_cons] at hdistinct
    have hgiven' : ∀ g ∈ fs, g.name ∉ f.name :: given := by
      intro g hg hmem
      rcases List.mem_cons.mp hmem with heq | hmem
      · exact hdistinct.1 (heq ▸ List.mem_map_of_mem hg)
      · exact hgiven.2 g hg hmem
    obtain ⟨given', htakes, hsub, hneeded⟩ := ih ((List.sublist_cons_self f fs).trans hfs) hgiven'
    have hmember : fieldMember fields ⟨s, given⟩ f.name =
        .ok (f.read.map fun change => Draft.give ⟨s, given⟩ f.name change) := by
      simp [fieldMember, find?_name hnames (hfs.subset List.mem_cons_self), hgiven.1]
    refine ⟨given', .cons (memberText_member f.name value) hmember (hread.map _) htakes,
      fun _ h => hsub (List.mem_cons_of_mem _ h), ?_⟩
    rw [List.forall_mem_cons]
    exact ⟨fun _ => hsub List.mem_cons_self, hneeded⟩
  | @missing f fs ms s s' hoptional _ ih =>
    -- A field that is not given must be optional, and leaves the draft as it is.
    rw [List.forall_mem_cons] at hgiven
    obtain ⟨given', htakes, hsub, hneeded⟩ :=
      ih ((List.sublist_cons_self f fs).trans hfs) hgiven.2
    refine ⟨given', htakes, hsub, ?_⟩
    rw [List.forall_mem_cons]
    exact ⟨fun hf => absurd hf (by simp [hoptional]), hneeded⟩

/-- A member with none of the given names, whose value is any JSON text at all. -/
inductive ForeignMember (names : List String) : List Char → Prop
  | mk {name : String} {before spelled gap v : List Char} (hname : name ∉ names)
    (hbefore : Blank before) (hspelled : Spells spelled name.toList) (hgap : Blank gap)
    (hv : IsText v) : ForeignMember names (before ++ '"' :: (spelled ++ '"' :: (gap ++ ':' :: v)))

/-- The members `us` are the members `ts` with foreign ones put in between. -/
inductive Interspersed (names : List String) : (ts us : List (List Char)) → Prop
  | nil : Interspersed names [] []
  | keep {ts us : List (List Char)} (t : List Char) (h : Interspersed names ts us) :
    Interspersed names (t :: ts) (t :: us)
  | foreign {ts us : List (List Char)} {t : List Char} (ht : ForeignMember names t)
    (h : Interspersed names ts us) : Interspersed names ts (t :: us)

/-- Nothing has to be added. -/
theorem Interspersed.refl (names : List String) (ts : List (List Char)) :
    Interspersed names ts ts := by
  induction ts with
  | nil => exact .nil
  | cons t ts ih => exact .keep t ih

/-- A foreign member changes nothing. -/
theorem TakesMembers.foreign {t : List Char}
    (ht : ForeignMember (fields.map RecordField.name) t)
    (h : TakesMembers (fieldMember fields) d ts d') :
    TakesMembers (fieldMember fields) d (t :: ts) d' := by
  cases ht with
  | @mk name before spelled gap v hname hbefore hspelled hgap hv =>
    cases hv with
    | @mk blanks v after hblanks hv hafter =>
      -- No field has the name, so the value is skipped.
      have hnone : fields.find? (fun f => f.name = name) = none := by
        simpa using hname
      have hmember : fieldMember fields d name = .ok (skip.map fun _ => d) := by
        simp only [fieldMember, hnone]
      have htext : MemberText name (blanks ++ v)
          (before ++ '"' :: (spelled ++ '"' :: (gap ++ ':' :: (blanks ++ (v ++ after))))) := by
        rw [← List.append_assoc blanks v after]
        exact .mk hbefore hspelled hgap hafter
      exact .cons htext hmember ((takes_skip hblanks hv).map _) h

/-- Foreign members make no difference, wherever they stand. -/
theorem TakesMembers.interspersed {us : List (List Char)}
    (hus : Interspersed (fields.map RecordField.name) ts us)
    (h : TakesMembers (fieldMember fields) d ts d') :
    TakesMembers (fieldMember fields) d us d' := by
  induction hus generalizing d with
  | nil => exact h
  | keep t _ ih =>
    cases h with
    | cons ht hmember hread h => exact .cons ht hmember hread (ih h)
  | foreign ht _ ih => exact .foreign ht (ih h)

/-- An object with the given members, and between them foreign ones with other names. -/
inductive ObjectPadded (names : List String) (ms : List (String × List Char)) : List Char → Prop
  | mk {texts : List (List Char)}
    (h : Interspersed names (ms.map fun m => member m.1 m.2) texts) :
    ObjectPadded names ms ('{' :: (commas texts ++ ['}']))

/-- A record is read from the texts of its fields, whatever other members there are. -/
theorem FieldTexts.takes_record {ms : List (String × List Char)} {blank s : σ} {text : List Char}
    {names : List String} (h : FieldTexts fields ms blank s) (htext : ObjectPadded names ms text)
    (hfields : fields.map RecordField.name = names) (hnames : names.Nodup) :
    (record (some fields) blank).Takes text s := by
  subst hfields
  cases htext with
  | mk hus =>
    have hgiven : ∀ f ∈ fields, f.name ∉ ([] : List String) := fun _ _ => List.not_mem_nil
    obtain ⟨given, htakes, _, hneeded⟩ :=
      h.takesMembers hnames (List.Sublist.refl fields) hgiven
    apply Json.takes_record (htakes.interspersed hus)
    -- All needed fields have been given.
    have hall : fields.all (fun f => !f.needed || given.contains f.name) = true := by
      simpa [Bool.eq_false_or_eq_true, or_iff_not_imp_left] using hneeded
    rw [Draft.finish?, hall, if_pos rfl]

end Records

end LayerGraph.Json
