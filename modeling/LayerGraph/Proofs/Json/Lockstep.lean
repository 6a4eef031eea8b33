import LayerGraph.Proofs.Json.Members

/-! # Two readings in lockstep

The same reader on two texts: the two readings agree if both take the same value, or if both end
with the same fault.  What a reader does next depends on the value alone, so agreement passes from
the parts of a text to the whole.

A special case is one text in two surroundings.  For every scalar of the grammar the two readings
agree, also where it is refused: the text of a string may have a lone surrogate in it, and a number
may be too large.

## Key results

- `Agree.bind`: readings that agree go on to agree
- `IsString.spells_or_refused`: a string is spelled right, or always refused
- `agree_scalar`: what a reader makes of a scalar does not depend on what follows
- `agree_elements_item`, `agree_members_item`, `agree_fieldElements_item`: one item of an array, of
  an object and of a record -/

namespace LayerGraph.Json

variable {α β σ : Type} {k l m n : Nat} {rest rest' final final' : List Char}

/-- Two readings agree: both take the same value, and leave `rest` and `rest'`, or both end with the
    same fault. -/
inductive Agree (x : Except Fault (Parsed α m)) (y : Except Fault (Parsed α n))
    (rest rest' : List Char) : Prop
  | taken {v : α} (hx : Yields x v rest) (hy : Yields y v rest')
  | refused {fault : Fault} (hx : x = .error fault) (hy : y = .error fault)

/-- Readings that have taken the same value agree if they agree from there on. -/
theorem Yields.bind_agree {x : Except Fault (Parsed α m)} {y : Except Fault (Parsed α n)} {v : α}
    (hx : Yields x v rest) (hy : Yields y v rest') {f : Parsed α m → Except Fault (Parsed β k)}
    {g : Parsed α n → Except Fault (Parsed β l)}
    (hfg : ∀ hlt hlt', Agree (f ⟨v, rest, hlt⟩) (g ⟨v, rest', hlt'⟩) final final') :
    Agree (x >>= f) (y >>= g) final final' := by
  obtain ⟨hlt, rfl⟩ := hx
  obtain ⟨hlt', rfl⟩ := hy
  exact hfg hlt hlt'

/-- Readings that agree go on to agree, if they do for each value. -/
theorem Agree.bind {x : Except Fault (Parsed α m)} {y : Except Fault (Parsed α n)}
    (h : Agree x y rest rest') {f : Parsed α m → Except Fault (Parsed β k)}
    {g : Parsed α n → Except Fault (Parsed β l)}
    (hfg : ∀ v hlt hlt', Agree (f ⟨v, rest, hlt⟩) (g ⟨v, rest', hlt'⟩) final final') :
    Agree (x >>= f) (y >>= g) final final' := by
  cases h with
  | taken hx hy => exact hx.bind_agree hy (hfg _)
  | refused hx hy =>
    subst hx hy
    exact .refused rfl rfl

/-- Reading one character more before both texts. -/
theorem Agree.past {cs ds : List Char} {x : Except Fault (Parsed α cs.length)}
    {y : Except Fault (Parsed α ds.length)} (h : Agree x y rest rest') (c : Char) :
    Agree (x >>= fun p => pure (p.past c)) (y >>= fun p => pure (p.past c)) rest rest' := by
  apply h.bind
  intro v hlt hlt'
  exact .taken ⟨Nat.lt_succ_of_lt hlt, rfl⟩ ⟨Nat.lt_succ_of_lt hlt', rfl⟩

/-- The reader makes the same of two texts, with blanks before them and whatever comes after. -/
def Reader.Agrees (read : Reader α) (v w : List Char) : Prop :=
  ∀ blanks rest rest', Blank blanks → Ended rest → Ended rest' →
    Agree (read (blanks ++ (v ++ rest))) (read (blanks ++ (w ++ rest'))) rest rest'

/-- What a reader makes of its result does not matter, … -/
theorem Reader.Agrees.map {read : Reader α} {v w : List Char} (h : read.Agrees v w) (f : α → β) :
    (read.map f).Agrees v w := by
  intro blanks rest rest' hblanks hrest hrest'
  apply (h blanks rest rest' hblanks hrest hrest').bind
  intro a hlt hlt'
  exact .taken ⟨hlt, rfl⟩ ⟨hlt', rfl⟩

/-- … even if it may refuse it. -/
theorem Reader.Agrees.check {read : Reader α} {v w : List Char} (h : read.Agrees v w)
    (f : α → Option β) : (read.check f).Agrees v w := by
  intro blanks rest rest' hblanks hrest hrest'
  apply (h blanks rest rest' hblanks hrest hrest').bind
  intro a hlt hlt'
  cases hf : f a with
  | some b => exact .taken ⟨hlt, rfl⟩ ⟨hlt', rfl⟩
  | none => exact .refused rfl rfl

/-- Readers that skip blanks agree if they do behind the blanks. -/
theorem agree_afterBlanks {read : Reader α} {blanks cs ds : List Char} {c d : Char}
    (hblanks : Blank blanks) (hc : isBlank c = false) (hd : isBlank d = false)
    (h : Agree (read (c :: cs)) (read (d :: ds)) rest rest') :
    Agree (read.afterBlanks (blanks ++ c :: cs)) (read.afterBlanks (blanks ++ d :: ds))
      rest rest' := by
  have hskip : skipBlanks (blanks ++ c :: cs) = c :: cs := by
    rw [skipBlanks_append hblanks, skipBlanks_cons hc]
  have hskip' : skipBlanks (blanks ++ d :: ds) = d :: ds := by
    rw [skipBlanks_append hblanks, skipBlanks_cons hd]
  have hread : Agree (read (skipBlanks (blanks ++ c :: cs)))
      (read (skipBlanks (blanks ++ d :: ds))) rest rest' := by
    rw [hskip, hskip']
    exact h
  -- The rest is shorter than the text with its blanks as well.
  apply hread.bind
  intro v hlt hlt'
  exact .taken ⟨Nat.lt_of_lt_of_le hlt (length_skipBlanks_le _), rfl⟩
    ⟨Nat.lt_of_lt_of_le hlt' (length_skipBlanks_le _), rfl⟩

/-- Texts of which a reader makes the same are parsed the same, with blanks around them. -/
theorem parse_eq_of_agrees {read : Reader α} {v w before after : List Char}
    (h : read.Agrees v w) (hbefore : Blank before) (hafter : Blank after) :
    parse read (String.ofList (before ++ (v ++ after))) =
      parse read (String.ofList (before ++ (w ++ after))) := by
  have hended : Ended after := by
    have := hafter.ended ended_nil
    rwa [List.append_nil] at this
  rw [parse, parse, String.toList_ofList, String.toList_ofList]
  cases h before after after hbefore hended hended with
  | taken hx hy =>
    -- After the value only blanks are left of both texts.
    obtain ⟨_, hx⟩ := hx
    obtain ⟨_, hy⟩ := hy
    rw [hx, hy]
    rfl
  | refused hx hy =>
    rw [hx, hy]
    rfl

/-! ## Strings

A string of the grammar need not mean anything.  If it does not, it is refused when the reader comes
to the first piece that means no character. -/

/-- A code unit that opens a surrogate pair is refused if no other one follows. -/
theorem codeUnits_of_expect {digits : List Char} {u : Nat} (h : CodeUnit digits u)
    (hhigh : isHighSurrogate u = true) {rest : List Char}
    (hrest : expect ['\\', 'u'] rest = .error .malformed) :
    codeUnits (digits ++ rest) = .error .malformed := by
  obtain ⟨hlt, heq⟩ := yields_fourHex h rest
  simp only [codeUnits, heq, bind, Except.bind, isLowSurrogate_of_isHighSurrogate hhigh, hhigh,
    hrest, Bool.false_eq_true, if_false, if_true]

/-- A low surrogate on its own is refused. -/
private theorem codeUnits_of_low {digits : List Char} {u : Nat} (h : CodeUnit digits u)
    (hlow : isLowSurrogate u = true) (rest : List Char) :
    codeUnits (digits ++ rest) = .error .malformed := by
  obtain ⟨hlt, heq⟩ := yields_fourHex h rest
  simp only [codeUnits, heq, bind, Except.bind, hlow, if_true]
  rfl

/-- Two code units of which only the first belongs to a surrogate pair are refused. -/
theorem codeUnits_of_not_low {digits digits' : List Char} {u u' : Nat} (h : CodeUnit digits u)
    (h' : CodeUnit digits' u') (hhigh : isHighSurrogate u = true)
    (hlow' : isLowSurrogate u' = false) (rest : List Char) :
    codeUnits (digits ++ '\\' :: 'u' :: (digits' ++ rest)) = .error .malformed := by
  obtain ⟨hlt, heq⟩ := yields_fourHex h ('\\' :: 'u' :: (digits' ++ rest))
  obtain ⟨hexpect, hexpected⟩ := expect_append ['\\', 'u'] (digits' ++ rest)
  obtain ⟨hlt', heq'⟩ := yields_fourHex h' rest
  simp only [List.cons_append, List.nil_append] at hexpected
  simp [codeUnits, heq, bind, Except.bind, isLowSurrogate_of_isHighSurrogate hhigh, hhigh,
    hexpected, heq', hlow', throw, throwThe, MonadExceptOf.throw]

/-- A character with a bad escape is refused … -/
private theorem character_of_codeUnits {cs : List Char} {fault : Fault}
    (h : codeUnits cs = .error fault) : character ('\\' :: 'u' :: cs) = .error fault := by
  simp [character, h, bind, Except.bind]

/-- A code unit at the front of a string is a character, with or without the next one, or it is
    refused. -/
theorem IsString.character_unit {digits text : List Char} {u : Nat} (hunit : CodeUnit digits u)
    (h : IsString text) :
    (∃ piece c text', '\\' :: 'u' :: (digits ++ text) = piece ++ text' ∧ SpellsChar piece c ∧
      IsString text' ∧ text'.length ≤ text.length) ∨
      ∀ rest, character ('\\' :: 'u' :: (digits ++ (text ++ '"' :: rest))) = .error .malformed := by
  cases hlow : isLowSurrogate u with
  -- A low surrogate is refused wherever it stands alone.
  | true => exact .inr fun rest => character_of_codeUnits (codeUnits_of_low hunit hlow _)
  | false =>
    cases hhigh : isHighSurrogate u with
    | false => exact .inl ⟨_, _, text, rfl, .unit hunit hlow hhigh, h, Nat.le_refl _⟩
    | true =>
      -- The other half must come right after, so the next piece decides.
      cases h with
      | nil =>
        refine .inr fun rest => character_of_codeUnits (codeUnits_of_expect hunit hhigh ?_)
        simp [expect]
      | @cons piece text hpiece h =>
        cases hpiece with
        | plain hplain =>
          refine .inr fun rest => character_of_codeUnits (codeUnits_of_expect hunit hhigh ?_)
          simp [expect, hplain.notBackslash]
        | @short e he =>
          have hne : e ≠ 'u' := by
            rintro rfl
            exact absurd he (by decide)
          refine .inr fun rest => character_of_codeUnits (codeUnits_of_expect hunit hhigh ?_)
          simp [expect, hne, bind, Except.bind]
        | @unit digits' u' hunit' =>
          cases hlow' : isLowSurrogate u' with
          | true =>
            refine .inl ⟨_, _, text, ?_, .pair hunit hunit' hhigh hlow', h, ?_⟩
            · simp
            · simp only [List.cons_append, List.length_cons, List.length_append]
              omega
          | false =>
            refine .inr fun rest => character_of_codeUnits ?_
            rw [List.cons_append, List.cons_append, List.cons_append, List.cons_append,
              List.append_assoc]
            exact codeUnits_of_not_low hunit hunit' hhigh hlow' _

/-- At the front of a string there is its end, a character, or something that is refused. -/
theorem IsString.front_cases {text : List Char} (h : IsString text) :
    text = [] ∨
      (∃ piece c text', text = piece ++ text' ∧ SpellsChar piece c ∧ IsString text' ∧
        text'.length < text.length) ∨
      ∀ rest, character (text ++ '"' :: rest) = .error .malformed := by
  cases h with
  | nil => exact .inl rfl
  | @cons piece text hpiece h =>
    cases hpiece with
    | plain hplain => exact .inr (.inl ⟨_, _, text, rfl, .plain hplain, h, by simp⟩)
    | short he =>
      obtain ⟨c, hc⟩ := Option.isSome_iff_exists.mp he
      refine .inr (.inl ⟨_, c, text, rfl, .short hc, h, ?_⟩)
      simp only [List.cons_append, List.nil_append, List.length_cons]
      omega
    | unit hunit =>
      -- An escape may need the next one, so it is not always a piece of its own.
      rcases h.character_unit hunit with ⟨piece, c, text', heq, hc, h', hle⟩ | hrefused
      · refine .inr (.inl ⟨piece, c, text', heq, hc, h', ?_⟩)
        simp only [List.cons_append, List.length_cons, List.length_append]
        omega
      · refine .inr (.inr fun rest => ?_)
        rw [List.cons_append, List.cons_append, List.cons_append, List.cons_append,
          List.append_assoc]
        exact hrefused rest

/-- … and so is a string with such a character. -/
private theorem characters_of_refused {bound : Nat} {read cs : List Char}
    {hbound : cs.length ≤ bound} {fault : Fault} (h : character cs = .error fault) :
    characters bound read cs hbound = .error fault := by
  rw [characters, h]

/-- A string is spelled right, or it is refused, whatever comes after it. -/
theorem IsString.spells_or_refused {text : List Char} (h : IsString text) :
    (∃ cs, Spells text cs) ∨ ∀ bound read rest hbound,
      characters bound read (text ++ '"' :: rest) hbound = .error .malformed := by
  induction hlength : text.length using Nat.strongRecOn generalizing text with
  | ind n ih =>
    rcases h.front_cases with rfl | ⟨piece, c, text', rfl, hc, h', hlt⟩ | hrefused
    · exact .inl ⟨[], .nil⟩
    · -- A character is taken off the front, and the rest is shorter.
      rcases ih text'.length (hlength ▸ hlt) h' rfl with ⟨cs, hcs⟩ | hrefused
      · exact .inl ⟨c :: cs, .cons hc hcs⟩
      · refine .inr fun bound read rest hbound => ?_
        have hpiece := yields_character hc (text' ++ '"' :: rest)
        rw [← List.append_assoc] at hpiece
        obtain ⟨hshorter, heq⟩ := hpiece
        rw [characters, heq]
        exact hrefused bound (c :: read) rest _
    · exact .inr fun bound read rest hbound => characters_of_refused (hrefused rest)

/-- The same for the reader of strings. -/
theorem IsString.stringBody_cases {text : List Char} (h : IsString text) :
    (∃ s : String, Spells text s.toList) ∨
      ∀ rest, stringBody (text ++ '"' :: rest) = .error .malformed := by
  rcases h.spells_or_refused with ⟨cs, hcs⟩ | hrefused
  · exact .inl ⟨String.ofList cs, by rwa [String.toList_ofList]⟩
  · exact .inr fun rest => hrefused _ [] rest _

/-- A string is read alike, or refused alike, whatever follows. -/
theorem agree_stringBody {text : List Char} (h : IsString text) (rest rest' : List Char) :
    Agree (stringBody (text ++ '"' :: rest)) (stringBody (text ++ '"' :: rest')) rest rest' := by
  rcases h.stringBody_cases with ⟨s, hs⟩ | hrefused
  · exact .taken (yields_stringBody hs rest) (yields_stringBody hs rest')
  · exact .refused (hrefused rest) (hrefused rest')

/-- A spelled character before a string makes a string. -/
private theorem SpellsChar.isString_append {piece text : List Char} {c : Char}
    (h : SpellsChar piece c) (htext : IsString text) : IsString (piece ++ text) := by
  cases h with
  | plain h => exact .cons (.plain h) htext
  | short h => exact .cons (.short (by simp [h])) htext
  | unit h _ _ => exact .cons (.unit h) htext
  | pair h h' _ _ =>
    have hpair := IsString.cons (.unit h) (.cons (.unit h') htext)
    simpa using hpair

/-- Everything that spells something is a string. -/
theorem Spells.isString {text cs : List Char} (h : Spells text cs) : IsString text := by
  induction h with
  | nil => exact .nil
  | cons hc _ ih => exact hc.isString_append ih

/-- A text spells one string only, the one that is read. -/
theorem Spells.unique {text : List Char} {s s' : String} (h : Spells text s.toList)
    (h' : Spells text s'.toList) : s = s' := by
  obtain ⟨_, heq⟩ := yields_stringBody h []
  obtain ⟨_, heq'⟩ := yields_stringBody h' []
  rw [heq] at heq'
  cases heq'
  rfl

/-! ## Scalars -/

/-- So is a number. -/
private theorem agree_number {n : Numeral} {text : List Char} (h : NumeralText n text)
    (hrest : Ended rest) (hrest' : Ended rest') :
    Agree (number (text ++ rest)) (number (text ++ rest')) rest rest' := by
  cases hn : n.number? with
  | some v => exact .taken (takes_number h hn rest hrest) (takes_number h hn rest' hrest')
  | none =>
    have hrefused : ∀ rest, Ended rest → number (text ++ rest) = .error .malformed := by
      intro rest hrest
      obtain ⟨_, heq⟩ := yields_numeral h hrest
      simp only [number, heq, bind, Except.bind, hn]
      rfl
    exact .refused (hrefused rest hrest) (hrefused rest' hrest')

/-- What a reader makes of a scalar does not depend on what follows. -/
theorem agree_scalar {v : List Char} (h : IsScalar v) (hrest : Ended rest) (hrest' : Ended rest') :
    Agree (scalar (v ++ rest)) (scalar (v ++ rest')) rest rest' := by
  cases h with
  | nullWord => exact .taken (yields_word _ "ull".toList 'n' _) (yields_word _ "ull".toList 'n' _)
  | trueWord => exact .taken (yields_word _ "rue".toList 't' _) (yields_word _ "rue".toList 't' _)
  | falseWord =>
    exact .taken (yields_word _ "alse".toList 'f' _) (yields_word _ "alse".toList 'f' _)
  | @number n cs h =>
    have hnumber := agree_number h hrest hrest'
    obtain ⟨c, cs, rfl, hc⟩ := h.eq_cons
    -- A number begins with none of the other first characters.
    have hscalar : ∀ rest, scalar (c :: cs ++ rest) = do
        let p ← number (c :: cs ++ rest)
        return p.map .number := by
      intro rest
      rw [List.cons_append, scalar, if_neg (ne_of_startsNumber hc (by decide)),
        if_neg (ne_of_startsNumber hc (by decide)), if_neg (ne_of_startsNumber hc (by decide)),
        if_neg (ne_of_startsNumber hc (by decide)), if_pos hc]
    rw [hscalar, hscalar]
    exact hnumber.bind fun v hlt hlt' => .taken ⟨hlt, rfl⟩ ⟨hlt', rfl⟩
  | @string cs h =>
    rw [List.cons_append, List.cons_append, List.append_assoc, List.append_assoc]
    have hafter : Agree (stringAfter '"' (cs ++ '"' :: rest)) (stringAfter '"' (cs ++ '"' :: rest'))
        rest rest' :=
      (agree_stringBody h rest rest').past '"'
    exact hafter.bind fun v hlt hlt' => .taken ⟨hlt, rfl⟩ ⟨hlt', rfl⟩

/-- A scalar of the wrong type is refused with the same fault, whatever follows. -/
theorem wrongType_scalar {v : List Char} (h : IsScalar v) (hrest : Ended rest)
    (hrest' : Ended rest') : wrongType (v ++ rest) = wrongType (v ++ rest') := by
  have hagree := agree_scalar h hrest hrest'
  obtain ⟨c, cs, rfl, _, hsquare, hcurly, _⟩ := h.eq_cons
  rw [List.cons_append, List.cons_append] at hagree
  cases hagree with
  | taken hx hy =>
    obtain ⟨_, hx⟩ := hx
    obtain ⟨_, hy⟩ := hy
    simp [wrongType, hsquare, hcurly, hx, hy]
  | refused hx hy => simp [wrongType, hsquare, hcurly, hx, hy]

/-- A reader that takes no scalars of this kind refuses them all alike. -/
theorem agrees_of_wrongType {read : Reader α} {v : List Char} (h : IsScalar v)
    (hread : ∀ rest, read (v ++ rest) = .error (wrongType (v ++ rest))) :
    read.afterBlanks.Agrees v v := by
  intro blanks rest rest' hblanks hrest hrest'
  have hwrong := wrongType_scalar h hrest hrest'
  obtain ⟨c, cs, rfl, hblank, _⟩ := h.eq_cons
  apply agree_afterBlanks hblanks hblank hblank
  exact .refused ((hread rest).trans (congrArg Except.error hwrong)) (hread rest')

/-! ## One item -/

/-- What stands before an item: nothing before the first one, a comma before the others. -/
inductive Lead : (first : Bool) → List Char → Prop
  | first : Lead true []
  | later {gap : List Char} (h : Blank gap) : Lead false (gap ++ [','])

theorem ended_comma (rest : List Char) : Ended (',' :: rest) :=
  ended_cons (by decide)

/-- The next item is found, whether it is the first or a later one. -/
theorem next_item {closing c : Char} {first : Bool} {lead before : List Char}
    (hlead : Lead first lead) (hbefore : Blank before) (hc : isBlank c = false)
    (hne : c ≠ closing) (hclosing : closing ≠ ',') (cs : List Char) :
    ∃ h, next closing first (lead ++ (before ++ c :: cs)) = .ok (.item (c :: cs) h) := by
  cases hlead with
  | first => exact next_first closing hbefore hc hne cs
  | later hgap =>
    rw [List.append_assoc]
    exact next_later closing hgap hbefore hc hne hclosing cs

/-- Another character than the expected one is refused. -/
theorem mark_of_front {c closing : Char} {cs more : List Char} (hfront : Yields (front cs) c more)
    (hne : c ≠ closing) : mark closing cs = .error .malformed := by
  obtain ⟨_, hfront⟩ := hfront
  simp only [mark, hfront, bind, Except.bind, hne, if_false]
  rfl

/-- Two arrays are read alike if their first elements and what is left are. -/
theorem agree_elements_item {item : Reader α} {first : Bool} {cs ds cs' ds' cs'' ds'' : List Char}
    (hnext : ∃ h, next ']' first cs = .ok (.item cs' h))
    (hnext' : ∃ h, next ']' first ds = .ok (.item ds' h))
    (hitem : Agree (item cs') (item ds') cs'' ds'')
    (hlater : Agree (elements item false cs'') (elements item false ds'') rest rest') :
    Agree (elements item first cs) (elements item first ds) rest rest' := by
  obtain ⟨h, hnext⟩ := hnext
  obtain ⟨h', hnext'⟩ := hnext'
  rw [elements.eq_def item first cs, hnext, elements.eq_def item first ds, hnext']
  apply hitem.bind
  intro v hlt hlt'
  apply hlater.bind
  intro vs hlt₂ hlt₂'
  exact .taken ⟨by omega, rfl⟩ ⟨by omega, rfl⟩

/-- A string that is refused is refused as a name. -/
private theorem quoted_of_refused {text : List Char}
    (h : ∀ rest, stringBody (text ++ '"' :: rest) = .error .malformed) (rest : List Char) :
    quoted ('"' :: (text ++ '"' :: rest)) = .error .malformed := by
  have hquote : Yields (front ('"' :: (text ++ '"' :: rest))) '"' (text ++ '"' :: rest) :=
    yields_front blank_nil (by decide) _
  obtain ⟨_, hfront⟩ := hquote
  simp only [quoted, hfront, bind, Except.bind, if_true, h rest]

/-- The name of a member decides how its value is read, if it means anything. -/
theorem agree_members_item {member : σ → String → Except Fault (Reader σ)} {first : Bool} {s : σ}
    {cs ds name gap cs' ds' cs'' ds'' : List Char}
    (hnext : ∃ h, next '}' first cs =
      .ok (.item ('"' :: (name ++ '"' :: (gap ++ ':' :: cs'))) h))
    (hnext' : ∃ h, next '}' first ds =
      .ok (.item ('"' :: (name ++ '"' :: (gap ++ ':' :: ds'))) h))
    (hname : IsString name) (hgap : Blank gap)
    (hvalue : ∀ (key : String) (read : Reader σ), Spells name key.toList →
      member s key = .ok read → Agree (read cs') (read ds') cs'' ds'')
    (hlater : ∀ s', Agree (members member false s' cs'') (members member false s' ds'')
      rest rest') :
    Agree (members member first s cs) (members member first s ds) rest rest' := by
  obtain ⟨h, hnext⟩ := hnext
  obtain ⟨h', hnext'⟩ := hnext'
  rw [members.eq_def member first s cs, hnext, members.eq_def member first s ds, hnext']
  -- The name may spell nothing, and then both are refused.
  rcases hname.stringBody_cases with ⟨key, hkey⟩ | hrefused
  · apply (yields_quoted blank_nil hkey _).bind_agree (yields_quoted blank_nil hkey _)
    intro h₁ h₁'
    dsimp only
    -- Which reader the name leads to does not depend on what follows.
    cases hmember : member s key with
    | error fault => exact .refused rfl rfl
    | ok read =>
      apply (yields_mark hgap (by decide) cs').bind_agree (yields_mark hgap (by decide) ds')
      intro h₂ h₂'
      apply (hvalue key read hkey hmember).bind
      intro s' h₃ h₃'
      apply (hlater s').bind
      intro s'' h₄ h₄'
      exact .taken ⟨_, rfl⟩ ⟨_, rfl⟩
  · simp only [bind, Except.bind, quoted_of_refused hrefused]
    exact .refused rfl rfl

/-- An array may end before all fields are read. -/
theorem fieldElements_closed (f : RecordField σ) (fields : List (RecordField σ)) {first : Bool}
    (d : Draft σ) {cs : List Char} (hnext : ∃ h, next ']' first cs = .ok (.closed rest h)) :
    Yields (fieldElements (f :: fields) first d cs) d rest := by
  obtain ⟨h, hnext⟩ := hnext
  refine ⟨h, ?_⟩
  show (next ']' first cs >>= _) = _
  rw [hnext]
  rfl

/-- Two records are read alike from arrays if their first fields and what is left are. -/
theorem agree_fieldElements_item {f : RecordField σ} {fields : List (RecordField σ)}
    {first : Bool} {d : Draft σ} {cs ds cs' ds' cs'' ds'' : List Char}
    (hnext : ∃ h, next ']' first cs = .ok (.item cs' h))
    (hnext' : ∃ h, next ']' first ds = .ok (.item ds' h))
    (hread : Agree (f.read cs') (f.read ds') cs'' ds'')
    (hlater : ∀ d', Agree (fieldElements fields false d' cs'') (fieldElements fields false d' ds'')
      rest rest') :
    Agree (fieldElements (f :: fields) first d cs) (fieldElements (f :: fields) first d ds)
      rest rest' := by
  obtain ⟨h, hnext⟩ := hnext
  obtain ⟨h', hnext'⟩ := hnext'
  show Agree (next ']' first cs >>= _) (next ']' first ds >>= _) rest rest'
  rw [hnext, hnext']
  apply hread.bind
  intro change hlt hlt'
  apply (hlater _).bind
  intro d' hlt₂ hlt₂'
  exact .taken ⟨by omega, rfl⟩ ⟨by omega, rfl⟩

end LayerGraph.Json
