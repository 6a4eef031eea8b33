import LayerGraph.Json.Scalar
import LayerGraph.Proofs.Json.Grammar

/-! # Readers take what the grammar gives

Every reader of a word, string or number takes the texts that the grammar has for it, and leaves
what comes after them.  A number has no closing mark of its own, so this depends on the text after
it: that must not look like more of the number (`Ended`).

## Key results

- `yields_characters`: strings are read in all their spellings
- `spells_escape`: what is written for a string is one of its spellings
- `yields_numeral`: numbers are read as they are written
- `exists_numeral_integerText`: an integer of 64 bits is the value of its text -/

namespace LayerGraph.Json

variable {α β : Type} {m n : Nat}

/-- What a reader returns: it has taken `v` off the front of the text, and `rest` is left. -/
def Yields (result : Except Fault (Parsed α n)) (v : α) (rest : List Char) : Prop :=
  ∃ h, result = .ok ⟨v, rest, h⟩

/-- A number that has been read so far does not go on here. -/
def Ended (rest : List Char) : Prop :=
  ∀ c ∈ rest.head?, c.isDigit = false ∧ c ≠ '.' ∧ c ≠ 'e' ∧ c ≠ 'E'

/-- The reader takes the whole text and nothing of what comes after it. -/
def Reader.Takes (read : Reader α) (text : List Char) (v : α) : Prop :=
  ∀ rest, Ended rest → Yields (read (text ++ rest)) v rest

theorem ended_nil : Ended [] := by
  simp [Ended]

/-- A number ends where neither a digit nor a point nor an exponent follows. -/
theorem ended_cons {c : Char} {rest : List Char}
    (h : c.isDigit = false ∧ c ≠ '.' ∧ c ≠ 'e' ∧ c ≠ 'E') : Ended (c :: rest) := by
  simpa [Ended] using h

/-- What is read next decides what a reader yields. -/
theorem Yields.bind {x : Except Fault (Parsed α m)} {v : α} {rest rest' : List Char}
    (hx : Yields x v rest) {f : Parsed α m → Except Fault (Parsed β n)} {w : β}
    (hf : ∀ h, Yields (f ⟨v, rest, h⟩) w rest') : Yields (x >>= f) w rest' := by
  obtain ⟨h, rfl⟩ := hx
  exact hf h

/-- A reader that changes its result, … -/
theorem Reader.Takes.map {read : Reader α} {text : List Char} {v : α} (h : read.Takes text v)
    (f : α → β) : (read.map f).Takes text (f v) :=
  fun rest hrest => (h rest hrest).bind fun hlt => ⟨hlt, rfl⟩

/-- … or checks it, takes the same texts. -/
theorem Reader.Takes.check {read : Reader α} {text : List Char} {v : α} (h : read.Takes text v)
    {f : α → Option β} {b : β} (hf : f v = some b) : (read.check f).Takes text b := by
  intro rest hrest
  apply (h rest hrest).bind
  intro hlt
  exact ⟨hlt, by simp only [hf]; rfl⟩

/-! ## Blanks and marks -/

/-- Blanks do not continue a number. -/
theorem Blank.ended {blanks rest : List Char} (h : Blank blanks) (hrest : Ended rest) :
    Ended (blanks ++ rest) := by
  cases blanks with
  | nil => exact hrest
  | cons c blanks =>
    have hc := h c List.mem_cons_self
    simp only [isBlank, Bool.or_eq_true, beq_iff_eq] at hc
    apply ended_cons
    rcases hc with ((rfl | rfl) | rfl) | rfl <;> decide

theorem skipBlanks_append {blanks : List Char} (h : Blank blanks) (rest : List Char) :
    skipBlanks (blanks ++ rest) = skipBlanks rest :=
  List.dropWhile_append_of_pos h

theorem skipBlanks_cons {c : Char} (hc : isBlank c = false) (rest : List Char) :
    skipBlanks (c :: rest) = c :: rest :=
  List.dropWhile_cons_of_neg (by simp [hc])

/-- A reader that skips blanks does not see them. -/
theorem yields_afterBlanks {read : Reader α} {blanks cs rest : List Char} {c : Char} {v : α}
    (hblanks : Blank blanks) (hc : isBlank c = false) (h : Yields (read (c :: cs)) v rest) :
    Yields (read.afterBlanks (blanks ++ c :: cs)) v rest := by
  have hskip : skipBlanks (blanks ++ c :: cs) = c :: cs := by
    rw [skipBlanks_append hblanks, skipBlanks_cons hc]
  have hread : Yields (read (skipBlanks (blanks ++ c :: cs))) v rest := by
    rw [hskip]
    exact h
  apply hread.bind
  intro hlt
  exact ⟨Nat.lt_of_lt_of_le hlt (length_skipBlanks_le _), rfl⟩

/-- The front of a text is its first character that is not blank. -/
theorem yields_front {blanks : List Char} {c : Char} (hblanks : Blank blanks)
    (hc : isBlank c = false) (rest : List Char) : Yields (front (blanks ++ c :: rest)) c rest :=
  yields_afterBlanks hblanks hc ⟨length_tail_lt c rest, rfl⟩

theorem blank_nil : Blank [] := by
  simp [Blank]

/-- A mark is found behind blanks. -/
theorem yields_mark {blanks : List Char} {c : Char} (hblanks : Blank blanks)
    (hc : isBlank c = false) (rest : List Char) :
    Yields (mark c (blanks ++ c :: rest)) () rest := by
  apply (yields_front hblanks hc rest).bind
  intro hlt
  exact ⟨hlt, by simp only [if_true]; rfl⟩

/-- An expected word is found. -/
theorem expect_append (word rest : List Char) :
    ∃ h, expect word (word ++ rest) = .ok ⟨rest, h⟩ := by
  induction word with
  | nil => exact ⟨rfl, rfl⟩
  | cons w ws ih =>
    obtain ⟨h, heq⟩ := ih
    refine ⟨by simp only [List.cons_append, List.length_cons]; omega, ?_⟩
    simp only [List.cons_append, expect, if_true, heq]
    rfl

/-- A word stands for its value. -/
theorem yields_word (v : α) (letters : List Char) (c : Char) (rest : List Char) :
    Yields (word v letters c (letters ++ rest)) v rest := by
  obtain ⟨h, heq⟩ := expect_append letters rest
  exact ⟨by simp only [List.length_cons, List.length_append]; omega, by rw [word, heq]; rfl⟩

/-- A text that a reader takes whole is parsed. -/
theorem parse_of_takes {read : Reader α} {text : List Char} {v : α} (h : read.Takes text v) :
    parse read (String.ofList text) = .ok v := by
  have hread := h [] ended_nil
  rw [List.append_nil] at hread
  obtain ⟨hlt, heq⟩ := hread
  rw [parse, String.toList_ofList, heq]
  rfl

/-! ## Strings -/

/-- Four hexadecimal digits are read as their code unit. -/
theorem yields_fourHex {digits : List Char} {u : Nat} (h : CodeUnit digits u) (rest : List Char) :
    Yields (fourHex (digits ++ rest)) u rest := by
  cases h with
  | mk ha hb hc hd =>
    exact ⟨by simp only [List.length_cons, List.length_append]; omega,
      by simp [fourHex, ha, hb, hc, hd]⟩

/-- A code unit that is no surrogate is a character of its own, … -/
private theorem yields_codeUnits_unit {digits : List Char} {u : Nat} (h : CodeUnit digits u)
    (hlow : isLowSurrogate u = false) (hhigh : isHighSurrogate u = false) (rest : List Char) :
    Yields (codeUnits (digits ++ rest)) (Char.ofNat u) rest := by
  apply (yields_fourHex h rest).bind
  intro hlt
  exact ⟨hlt, by simp [hlow, hhigh]; rfl⟩

/-- No surrogate is both high and low. -/
theorem isLowSurrogate_of_isHighSurrogate {u : Nat} (h : isHighSurrogate u = true) :
    isLowSurrogate u = false := by
  simp only [isHighSurrogate, Bool.and_eq_true, decide_eq_true_eq] at h
  simp only [isLowSurrogate, Bool.and_eq_false_iff, decide_eq_false_iff_not]
  omega

/-- … and a pair of surrogates is one character. -/
private theorem yields_codeUnits_pair {digits digits' : List Char} {u u' : Nat}
    (h : CodeUnit digits u) (h' : CodeUnit digits' u') (hhigh : isHighSurrogate u = true)
    (hlow' : isLowSurrogate u' = true) (rest : List Char) :
    Yields (codeUnits (digits ++ '\\' :: 'u' :: (digits' ++ rest)))
      (Char.ofNat ((u - 0xD800) * 0x400 + (u' - 0xDC00) + 0x10000)) rest := by
  -- The first unit is tested for a low surrogate before it is tested for a high one.
  have hlow := isLowSurrogate_of_isHighSurrogate hhigh
  apply (yields_fourHex h _).bind
  intro hlt
  obtain ⟨hexpect, heq⟩ := expect_append ['\\', 'u'] (digits' ++ rest)
  obtain ⟨hlt', heq'⟩ := yields_fourHex h' rest
  simp only [List.cons_append, List.nil_append] at heq
  simp only [hlow, hhigh, heq, Bool.false_eq_true, if_true, if_false]
  refine ⟨?_, ?_⟩
  · simp at hlt ⊢
    omega
  · simp [bind, Except.bind, heq', hlow', pure, Except.pure]

/-- An escape is read as its code units are. -/
private theorem yields_character_escape {cs rest : List Char} {c : Char}
    (h : Yields (codeUnits cs) c rest) : Yields (character ('\\' :: 'u' :: cs)) (some c) rest := by
  apply h.bind
  intro hlt
  exact ⟨by simp only [List.length_cons]; omega, rfl⟩

/-- Every spelling of a character is read as this character. -/
theorem yields_character {piece : List Char} {c : Char} (h : SpellsChar piece c)
    (rest : List Char) : Yields (character (piece ++ rest)) (some c) rest := by
  cases h with
  | plain h =>
    -- A plain character is none of those that must be escaped.
    have hcontrol : ¬ c.toNat < 0x20 := Nat.not_lt.mpr h.notControl
    exact ⟨by simp, by simp [character, h.notQuote, h.notBackslash, hcontrol]⟩
  | @short e _ h =>
    -- The escape with digits has a letter of its own.
    have he : e ≠ 'u' := by
      rintro rfl
      rw [show unescape? 'u' = none from rfl] at h
      simp at h
    exact ⟨by simp only [List.length_cons, List.length_append]; omega,
      by simp [character, he, h, Parsed.past, Parsed.widen]⟩
  | unit h hlow hhigh => exact yields_character_escape (yields_codeUnits_unit h hlow hhigh rest)
  | pair h h' hhigh hlow =>
    rw [List.cons_append, List.cons_append, List.append_assoc]
    exact yields_character_escape (yields_codeUnits_pair h h' hhigh hlow rest)

/-- What comes after a character is read on with the character in the list. -/
theorem yields_characters_cons {bound : Nat} {read cs cs' rest : List Char} {c : Char} {s : String}
    {hbound : cs.length ≤ bound} (hc : Yields (character cs) (some c) cs')
    (h : ∀ hbound', Yields (characters bound (c :: read) cs' hbound') s rest) :
    Yields (characters bound read cs hbound) s rest := by
  obtain ⟨hlt, heq⟩ := hc
  rw [characters, heq]
  exact h _

/-- A string is read in any of its spellings. -/
theorem yields_characters {text cs : List Char} (h : Spells text cs) (bound : Nat)
    (read rest : List Char) (hbound : (text ++ '"' :: rest).length ≤ bound) :
    Yields (characters bound read (text ++ '"' :: rest) hbound)
      (String.ofList (read.reverse ++ cs)) rest := by
  induction h generalizing read with
  | nil =>
    have hquote : character ([] ++ '"' :: rest) = .ok ⟨none, rest, length_tail_lt '"' rest⟩ := rfl
    rw [characters, hquote, List.append_nil]
    exact ⟨hbound, rfl⟩
  | @cons piece text cs c hc _ ih =>
    -- A piece is read, and its character goes on top of those read before.
    have hpiece : Yields (character (piece ++ text ++ '"' :: rest)) (some c)
        (text ++ '"' :: rest) := by
      rw [List.append_assoc]
      exact yields_character hc _
    apply yields_characters_cons hpiece
    intro hbound'
    simpa using ih (c :: read) hbound'

/-- So is every spelling of a string, up to the closing mark. -/
theorem yields_stringBody {text : List Char} {s : String} (h : Spells text s.toList)
    (rest : List Char) : Yields (stringBody (text ++ '"' :: rest)) s rest := by
  have hchars := yields_characters h _ [] rest (Nat.le_refl _)
  rwa [List.reverse_nil, List.nil_append, String.ofList_toList] at hchars

/-- The same with an opening mark, and blanks before it. -/
theorem yields_quoted {blanks text : List Char} {s : String} (hblanks : Blank blanks)
    (h : Spells text s.toList) (rest : List Char) :
    Yields (quoted (blanks ++ '"' :: (text ++ '"' :: rest))) s rest := by
  apply (yields_front hblanks (by decide) _).bind
  intro hlt
  apply (yields_stringBody h rest).bind
  intro hlt'
  exact ⟨by omega, rfl⟩

/-! ## Strings as they are written -/

/-- Short escapes are undone. -/
private theorem unescape?_of_mem_shortEscapes :
    ∀ e ∈ shortEscapes, unescape? e.1 = some e.2 := by
  decide

/-- Written hexadecimal digits are read back. -/
private theorem hexDigit?_digitChar : ∀ n < 16, hexDigit? (Nat.digitChar n) = some n := by
  decide

/-- The two digits of a small number are the last two of its four. -/
theorem codeUnit_twoHex {n : Nat} (h : n < 256) : CodeUnit ('0' :: '0' :: twoHex n) n := by
  have hunit := CodeUnit.mk (a := '0') (b := '0') (w := 0) (x := 0) rfl rfl
    (hexDigit?_digitChar (n / 16) (by omega)) (hexDigit?_digitChar (n % 16) (by omega))
  rwa [show ((0 * 16 + 0) * 16 + n / 16) * 16 + n % 16 = n by omega] at hunit

/-- The escape of a character is a spelling of it. -/
private theorem spellsChar_escape (c : Char) : SpellsChar (escape c) c := by
  rw [escape]
  split
  · next e he =>
    have hc : e.2 = c := by simpa using List.find?_some he
    apply SpellsChar.short
    rw [unescape?_of_mem_shortEscapes e (List.mem_of_find?_eq_some he), hc]
  · next hnone =>
    have hshort : ∀ e ∈ shortEscapes, e.2 ≠ c := by simpa using hnone
    split
    · next hcontrol =>
      -- The code unit of a control character is far below the surrogates.
      have hunit := SpellsChar.unit (codeUnit_twoHex (n := c.toNat) (by omega))
        (by simp [isLowSurrogate]; omega) (by simp [isHighSurrogate]; omega)
      rwa [Char.ofNat_toNat] at hunit
    · next hcontrol =>
      apply SpellsChar.plain
      exact ⟨fun hc => hshort ('"', '"') (by decide) hc.symm,
        fun hc => hshort ('\\', '\\') (by decide) hc.symm, Nat.not_lt.mp hcontrol⟩

/-- What is written for a string is one of its spellings. -/
theorem spells_escape (cs : List Char) : Spells (cs.flatMap escape) cs := by
  induction cs with
  | nil => exact .nil
  | cons c cs ih => exact .cons (spellsChar_escape c) ih

/-- A quoted string is the escapes of its characters between two marks. -/
theorem toList_quote (s : String) :
    (quote s).toList = '"' :: (s.toList.flatMap escape ++ ['"']) := by
  simp [quote]

/-! ## Numbers -/

namespace Numeral

/-- A text that does not go on with a digit. -/
def NoDigit (rest : List Char) : Prop := ∀ c ∈ rest.head?, c.isDigit = false

/-- No digit follows the end of a number. -/
private theorem NoDigit.of_ended {rest : List Char} (h : Ended rest) : NoDigit rest :=
  fun c hc => (h c hc).1

/-- Digits are read up to something else. -/
private theorem yields_someDigits {digits rest : List Char} (h : Digits digits)
    (hrest : NoDigit rest) : Yields (someDigits (digits ++ rest)) digits rest := by
  obtain ⟨hne, hall⟩ := h
  cases digits with
  | nil => exact absurd rfl hne
  | cons c digits =>
    have hdigits : ∀ d ∈ digits, d.isDigit = true := fun d hd => hall d (List.mem_cons_of_mem c hd)
    -- All digits are taken and then what follows is not one.
    have hspan : spanDigits (digits ++ rest) = (digits, rest) := by
      rw [spanDigits, List.takeWhile_append_of_pos hdigits, List.dropWhile_append_of_pos hdigits]
      cases rest with
      | nil => simp
      | cons d rest => simp [hrest d rfl]
    exact ⟨by simp only [List.length_cons, List.length_append]; omega,
      by simp [someDigits, hall c List.mem_cons_self, hspan]⟩

/-- The digits before the point, where no zero leads others. -/
private theorem yields_wholeDigits {digits rest : List Char} (h : Digits digits)
    (hzero : digits.head? = some '0' → digits = ['0']) (hrest : NoDigit rest) :
    Yields (wholeDigits (digits ++ rest)) digits rest := by
  apply (yields_someDigits h hrest).bind
  intro hlt
  dsimp only
  split
  · exact absurd (hzero rfl) (by simp)
  · exact ⟨hlt, rfl⟩

/-- The digits behind the point, if there are any. -/
private theorem yields_fractionDigits {fraction : Option (List Char)} {text rest : List Char}
    (h : FractionText fraction text) (hdigit : NoDigit rest) (hpoint : '.' ∉ rest.head?) :
    Yields (fractionDigits (text ++ rest)) fraction rest := by
  cases h with
  | absent =>
    rw [List.nil_append, fractionDigits]
    · exact ⟨by omega, rfl⟩
    · rintro more rfl
      simp at hpoint
  | present h =>
    apply (yields_someDigits h hdigit).bind
    intro hlt
    exact ⟨by simp only [List.length_cons, List.length_append]; omega, rfl⟩

/-- Without a sign an exponent is positive. -/
private theorem exponentSign_digit {d : Char} (hd : d.isDigit = true) (rest : List Char) :
    ∃ h, exponentSign (d :: rest) = ⟨false, d :: rest, h⟩ := by
  refine ⟨by omega, exponentSign.eq_3 _ ?_ ?_⟩ <;>
  · rintro more heq
    cases heq
    exact absurd hd (by decide)

/-- The sign of an exponent is read, whether or not it is written. -/
private theorem exponentSign_append {negative : Bool} {sign digits : List Char}
    (hsign : SignText negative sign) (h : Digits digits) (rest : List Char) :
    ∃ h, exponentSign (sign ++ (digits ++ rest)) = ⟨negative, digits ++ rest, h⟩ := by
  cases hsign with
  | absent =>
    obtain ⟨hne, hall⟩ := h
    cases digits with
    | nil => exact absurd rfl hne
    | cons d digits => exact exponentSign_digit (hall d List.mem_cons_self) (digits ++ rest)
  | plus => exact ⟨by simp only [List.length_cons, List.length_append]; omega, rfl⟩
  | minus => exact ⟨by simp only [List.length_cons, List.length_append]; omega, rfl⟩

/-- The exponent, if there is one. -/
private theorem yields_exponentPart {exponent : Option (Bool × List Char)} {text rest : List Char}
    (h : ExponentText exponent text) (hrest : Ended rest) :
    Yields (exponentPart (text ++ rest)) exponent rest := by
  cases h with
  | absent =>
    -- Nothing that follows looks like an exponent.
    rw [List.nil_append]
    cases rest with
    | nil => exact ⟨by simp, rfl⟩
    | cons c rest =>
      have hc := hrest c rfl
      exact ⟨by simp, by simp [exponentPart, hc.2.2.1, hc.2.2.2]⟩
  | @present mark negative sign digits hmark hsign h =>
    obtain ⟨hsignlt, hsigneq⟩ := exponentSign_append hsign h rest
    rw [List.cons_append, List.append_assoc, exponentPart, if_pos hmark, hsigneq]
    apply (yields_someDigits h (NoDigit.of_ended hrest)).bind
    intro hlt
    exact ⟨by simp only [List.length_cons]; omega, rfl⟩

/-- A number may be followed by what may follow its exponent, or start with it. -/
theorem ExponentText.follows {exponent : Option (Bool × List Char)} {text rest : List Char}
    (h : ExponentText exponent text) (hrest : Ended rest) :
    NoDigit (text ++ rest) ∧ '.' ∉ (text ++ rest).head? := by
  cases h with
  | absent => exact ⟨.of_ended hrest, fun hpoint => (hrest '.' hpoint).2.1 rfl⟩
  | present hmark => rcases hmark with rfl | rfl <;> simp [NoDigit]

/-- A fraction begins with a point. -/
private theorem FractionText.noDigit {fraction : Option (List Char)} {text rest : List Char}
    (h : FractionText fraction text) (hrest : NoDigit rest) : NoDigit (text ++ rest) := by
  cases h with
  | absent => exact hrest
  | present => simp [NoDigit]

/-- The parts of a numeral are read one after the other. -/
private theorem yields_unsigned {whole fractionText exponentText : List Char}
    {fraction : Option (List Char)} {exponent : Option (Bool × List Char)} (hwhole : Digits whole)
    (hzero : whole.head? = some '0' → whole = ['0'])
    (hfraction : FractionText fraction fractionText)
    (hexponent : ExponentText exponent exponentText) (negative : Bool) {rest : List Char}
    (hrest : Ended rest) :
    Yields (unsigned negative (whole ++ (fractionText ++ (exponentText ++ rest))))
      ⟨negative, whole, fraction, exponent⟩ rest := by
  obtain ⟨hdigit, hpoint⟩ := ExponentText.follows hexponent hrest
  apply (yields_wholeDigits hwhole hzero (FractionText.noDigit hfraction hdigit)).bind
  intro hlt
  apply (yields_fractionDigits hfraction hdigit hpoint).bind
  intro hlt'
  apply (yields_exponentPart hexponent hrest).bind
  intro hlt''
  exact ⟨by omega, rfl⟩

end Numeral

/-- A number is read as it is written. -/
theorem yields_numeral {n : Numeral} {text rest : List Char} (h : NumeralText n text)
    (hrest : Ended rest) : Yields (Numeral.read (text ++ rest)) n rest := by
  cases h with
  | @mk negative whole fractionText exponentText fraction exponent hwhole hzero hfraction
      hexponent =>
    have hunsigned := Numeral.yields_unsigned hwhole hzero hfraction hexponent negative hrest
    cases negative with
    | true =>
      rw [if_pos rfl, List.append_assoc, List.append_assoc, List.append_assoc]
      apply hunsigned.bind
      intro hlt
      exact ⟨Nat.lt_succ_of_lt hlt, rfl⟩
    | false =>
      rw [if_neg (by decide), List.nil_append, List.append_assoc, List.append_assoc]
      cases whole with
      | nil => exact absurd rfl hwhole.nonempty
      | cons c whole =>
        rw [List.cons_append, Numeral.read]
        · exact hunsigned
        · -- Without a sign the text begins with a digit.
          rintro more heq
          cases heq
          exact absurd (hwhole.all '-' List.mem_cons_self) (by decide)

/-- A number starts with its sign or a digit. -/
theorem NumeralText.eq_cons {n : Numeral} {text : List Char} (h : NumeralText n text) :
    ∃ c cs, text = c :: cs ∧ (c = '-' ∨ c.isDigit = true) := by
  cases h with
  | @mk negative whole _ _ _ _ hwhole =>
    cases negative with
    | true => exact ⟨_, _, rfl, .inl rfl⟩
    | false =>
      cases whole with
      | nil => exact absurd rfl hwhole.nonempty
      | cons c whole => exact ⟨_, _, rfl, .inr (hwhole.all c List.mem_cons_self)⟩

/-- The first character of a number is none that starts something else. -/
theorem ne_of_startsNumber {c : Char} (hc : c = '-' ∨ c.isDigit = true) {d : Char}
    (hd : d ≠ '-' ∧ d.isDigit = false) : c ≠ d := by
  rintro rfl
  rcases hc with hc | hc
  · exact hd.1 hc
  · exact absurd hc (by simp [hd.2])

/-! ## Integers as they are written -/

namespace Numeral

/-- Further digits do not make a number smaller. -/
private theorem le_ofDigitChars (digits : List Char) (n : Nat) :
    n ≤ Nat.ofDigitChars 10 digits n := by
  induction digits generalizing n with
  | nil => exact Nat.le_refl n
  | cons c digits ih =>
    rw [Nat.ofDigitChars_cons]
    exact Nat.le_trans (by omega) (ih _)

/-- Digits that fit are all absorbed. -/
theorem absorb_eq_of_le {digits : List Char} {n : Nat}
    (h : Nat.ofDigitChars 10 digits n ≤ maxSignificand) :
    absorb n digits = (Nat.ofDigitChars 10 digits n, []) := by
  induction digits generalizing n with
  | nil => rfl
  | cons c digits ih =>
    have hnext : n * 10 + digitValue c = 10 * n + (c.toNat - '0'.toNat) := by
      rw [digitValue, Nat.mul_comm]
    rw [Nat.ofDigitChars_cons] at h ⊢
    rw [absorb, hnext, if_pos (Nat.le_trans (le_ofDigitChars digits _) h), ih h]

/-- The digits of a number are digits. -/
private theorem digits_digitsOf (n : Nat) : Digits (Decimal.digitsOf n) where
  nonempty := Nat.toDigits_ne_nil
  all _ hc := Nat.isDigit_of_mem_toDigits (by decide) (by decide) hc

/-- A number that fits is read from its digits with none left over. -/
private theorem absorb_digitsOf {n : Nat} (h : n ≤ maxSignificand) :
    absorb 0 (Decimal.digitsOf n) = (n, []) := by
  have hvalue : Nat.ofDigitChars 10 (Decimal.digitsOf n) 0 = n := Nat.ofDigitChars_ten_toDigits
  rw [absorb_eq_of_le (by rwa [hvalue]), hvalue]

/-- Only zero itself is written with a zero in front. -/
theorem digitsOf_eq_zero {n : Nat} (h : (Decimal.digitsOf n).head? = some '0') :
    Decimal.digitsOf n = ['0'] := by
  induction n using Nat.strongRecOn with
  | ind n ih =>
    rw [Decimal.digitsOf, Nat.toDigits_eq_if (by decide)] at h ⊢
    split at h
    · next hn =>
      rw [if_pos hn]
      simpa using h
    · next hn =>
      -- The digits start with those of a tenth of the number, which is not zero here.
      rw [List.head?_append, Option.or_of_isSome (by simp [Nat.toDigits_ne_nil])] at h
      have hzero := ih (n / 10) (by omega) h
      have hvalue : Nat.ofDigitChars 10 (Nat.toDigits 10 (n / 10)) 0 = n / 10 :=
        Nat.ofDigitChars_ten_toDigits
      rw [show Nat.toDigits 10 (n / 10) = ['0'] from hzero] at hvalue
      have : n / 10 = 0 := hvalue.symm
      omega

/-- An integer is written as a numeral without fraction and exponent. -/
private theorem numeralText_digitsOf (negative : Bool) (n : Nat) :
    NumeralText ⟨negative, Decimal.digitsOf n, none, none⟩
      ((if negative then ['-'] else []) ++ Decimal.digitsOf n) := by
  have htext : NumeralText ⟨negative, Decimal.digitsOf n, none, none⟩ _ :=
    .mk (digits_digitsOf n) digitsOf_eq_zero .absent .absent
  rwa [List.append_nil, List.append_nil] at htext

/-- Which number such a numeral stands for, … -/
private theorem number?_natural {n : Nat} (h : n ≤ maxSignificand) :
    number? ⟨false, Decimal.digitsOf n, none, none⟩ = some (.int n) := by
  simp [number?, absorb_digitsOf h]

/-- … and with a sign. -/
private theorem number?_negative {n : Nat} (hpos : 1 ≤ n) (h : n ≤ Nat.pow 2 63) :
    number? ⟨true, Decimal.digitsOf n, none, none⟩ = some (.int (-n)) := by
  have hfits : n ≤ maxSignificand := by
    have hsigned : n ≤ 2 ^ 63 := h
    show n ≤ 2 ^ 64 - 1
    omega
  simp only [number?, absorb_digitsOf hfits, Bool.not_true, Bool.false_eq_true, if_false,
    And.intro hpos h, and_self, if_true]

end Numeral

/-- A numeral is read as its number. -/
theorem takes_number {n : Numeral} {text : List Char} {v : Number} (h : NumeralText n text)
    (hv : n.number? = some v) : number.Takes text v := by
  intro rest hrest
  apply (yields_numeral h hrest).bind
  intro hlt
  exact ⟨hlt, by simp only [hv]; rfl⟩

/-- The text of an integer of 64 bits, signed or unsigned, has the integer as its value. -/
theorem exists_numeral_integerText {k : Int} (hlow : -(Nat.pow 2 63 : Nat) ≤ k)
    (hhigh : k < (Nat.pow 2 64 : Nat)) :
    ∃ n, NumeralText n (Decimal.integerText k).toList ∧ n.number? = some (.int k) := by
  cases k with
  | ofNat n =>
    -- The bounds are those of unsigned words, …
    have hfits : n ≤ Numeral.maxSignificand := by
      rw [Int.ofNat_eq_natCast] at hhigh
      exact Nat.le_sub_one_of_lt (Int.ofNat_lt.mp hhigh)
    rw [Decimal.integerText, String.toList_ofList]
    exact ⟨_, Numeral.numeralText_digitsOf false n, Numeral.number?_natural hfits⟩
  | negSucc n =>
    -- … and below zero those of signed ones.
    have hfits : n + 1 ≤ Nat.pow 2 63 := by
      rw [Int.negSucc_eq] at hlow
      omega
    rw [Decimal.integerText, String.toList_ofList]
    exact ⟨_, Numeral.numeralText_digitsOf true (n + 1),
      Numeral.number?_negative (Nat.succ_pos n) hfits⟩

end LayerGraph.Json
