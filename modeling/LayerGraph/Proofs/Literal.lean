import LayerGraph.Literal
import LayerGraph.Proofs.Tokens

/-! # Literals can be read back

A literal shows the value that it stands for, up to what the text of a number leaves open, as long
as no text value holds a quotation mark.  The first character tells what sort of value follows, and
every sort of literal shows where it ends: a text at its second quotation mark, a number before the
first character that no number has, a sequence at its closing bracket.

The literal is written with an agenda, but what gets written is the literal that is defined by
recursion (`literal_eq_text`), so everything here is by induction on values.

## Key results

- `Number.isNumberChar_of_mem_text`: what the text of a number consists of
- `LiteralStyle.literal_eq_text`: the two definitions of a literal agree
- `LiteralStyle.write_appends`: what is written to a buffer
- `LiteralStyle.Readable.text_append_inj`: literals can be read back
- `LiteralStyle.literal_unambiguous`: so they tell the values that they stand for -/

namespace LayerGraph

open Text

/-! ## The text of a number -/

namespace Decimal

private theorem isNumberChar_of_mem_digitsOf {n : Nat} {c : Char} (h : c ∈ digitsOf n) :
    isNumberChar c = true := by
  have hdigit : c.isDigit = true := Nat.isDigit_of_mem_toDigits (by decide) (by decide) h
  simp [isNumberChar, hdigit]

/-- Digits with a point among them, … -/
private theorem isNumberChar_of_mem_positional {digits : List Char}
    (hdigits : ∀ c ∈ digits, isNumberChar c = true) (lead : Int) :
    ∀ c ∈ positional digits lead, isNumberChar c = true := by
  have hzero : ∀ k, ∀ c ∈ List.replicate k '0', isNumberChar c = true := by
    intro k c hc
    rw [List.eq_of_mem_replicate hc]
    rfl
  intro c hc
  unfold positional at hc
  -- Either zeros lead the digits, or the point stands among or behind them.
  split at hc
  · simp only [List.mem_cons, List.mem_append] at hc
    rcases hc with rfl | rfl | hc | hc
    · rfl
    · rfl
    · exact hzero _ c hc
    · exact hdigits c hc
  · simp only [List.mem_append, List.mem_cons] at hc
    rcases hc with (hc | hc) | rfl | hc
    · exact hdigits c (List.mem_of_mem_take hc)
    · exact hzero _ c hc
    · rfl
    · split at hc
      · rw [List.mem_singleton.mp hc]
        rfl
      · exact hdigits c (List.mem_of_mem_drop hc)

/-- … digits with an exponent, … -/
private theorem isNumberChar_of_mem_scientific {digits : List Char}
    (hdigits : ∀ c ∈ digits, isNumberChar c = true) (lead : Int) :
    ∀ c ∈ scientific digits lead, isNumberChar c = true := by
  intro c hc
  unfold scientific at hc
  simp only [List.mem_append, List.mem_cons] at hc
  -- The significand, the exponent mark, its sign and its digits.
  rcases hc with hc | rfl | rfl | hc
  · split at hc
    · simp only [List.mem_cons] at hc hdigits
      rcases hc with hc | rfl | hc
      · exact hdigits c (.inl hc)
      · rfl
      · exact hdigits c (.inr hc)
    · exact hdigits c hc
  · rfl
  · split <;> rfl
  · exact isNumberChar_of_mem_digitsOf hc

/-- … and so all decimals consist of number characters. -/
private theorem isNumberChar_of_mem_write (layout : Layout) (d : Decimal) :
    ∀ c ∈ layout.write d, isNumberChar c = true := by
  have hdigits : ∀ c ∈ digitsOf d.digits, isNumberChar c = true :=
    fun c hc => isNumberChar_of_mem_digitsOf hc
  unfold Layout.write
  dsimp only
  split
  · exact isNumberChar_of_mem_positional hdigits _
  · exact isNumberChar_of_mem_scientific hdigits _

/-- No decimal is written as nothing. -/
private theorem write_ne_nil (layout : Layout) (d : Decimal) : layout.write d ≠ [] := by
  unfold Layout.write
  dsimp only
  split
  · unfold positional
    split <;> simp
  · simp [scientific]

end Decimal

namespace Number

/-- The text of a number consists of digits, signs, points and exponent marks. -/
theorem isNumberChar_of_mem_text (n : Number) : ∀ c ∈ n.text.toList, isNumberChar c = true := by
  intro c hc
  match n with
  | .int (.ofNat k) =>
    rw [text, Decimal.integerText, String.toList_ofList] at hc
    exact Decimal.isNumberChar_of_mem_digitsOf hc
  | .int (.negSucc k) =>
    rw [text, Decimal.integerText, String.toList_ofList, List.mem_cons] at hc
    rcases hc with rfl | hc
    · rfl
    · exact Decimal.isNumberChar_of_mem_digitsOf hc
  | .float x =>
    rw [text, floatText, String.toList_ofList] at hc
    split at hc
    · rcases List.mem_cons.mp hc with rfl | hc
      · rfl
      · exact Decimal.isNumberChar_of_mem_write _ _ c hc
    · exact Decimal.isNumberChar_of_mem_write _ _ c hc

/-- No number has an empty text. -/
private theorem text_ne_empty (n : Number) : n.text.toList ≠ [] := by
  match n with
  | .int (.ofNat k) =>
    rw [text, Decimal.integerText, String.toList_ofList]
    exact Nat.toDigits_ne_nil
  | .int (.negSucc k) => simp [text, Decimal.integerText]
  | .float x =>
    rw [text, floatText, String.toList_ofList]
    split
    · simp
    · exact Decimal.write_ne_nil _ _

end Number

/-! ## Values -/

namespace Value

/-- Induction on values: a sequence has a property if its elements have it. -/
theorem induction {P : Value → Prop} (null : P .null) (bool : ∀ b, P (.bool b))
    (number : ∀ n, P (.number n)) (text : ∀ s, P (.text s))
    (seq : ∀ items, (∀ v ∈ items, P v) → P (.seq items)) (v : Value) : P v :=
  @Value.rec P (fun items => ∀ v ∈ items, P v) null bool number text seq (fun _ h => nomatch h)
    (fun _ _ hv hitems _ hmem => (List.mem_cons.mp hmem).elim (fun h => h ▸ hv) (hitems _)) v

mutual
/-- The text values inside a value. -/
def texts : Value → List String
  | .text s => [s]
  | .seq items => textsAll items
  | .null | .bool _ | .number _ => []

/-- The text values inside several values. -/
def textsAll : List Value → List String
  | [] => []
  | v :: vs => v.texts ++ textsAll vs
end

/-- The texts in some values are those in one of them. -/
private theorem mem_textsAll {items : List Value} {s : String} :
    s ∈ textsAll items ↔ ∃ v ∈ items, s ∈ v.texts := by
  induction items with
  | nil => simp [textsAll]
  | cons v vs ih => simp [textsAll, ih]

/-- No text inside the value holds a quotation mark. -/
def QuoteFree (v : Value) : Prop := ∀ s ∈ v.texts, '\'' ∉ s.toList

instance (v : Value) : Decidable v.QuoteFree :=
  inferInstanceAs (Decidable (∀ s ∈ v.texts, '\'' ∉ s.toList))

/-- The elements of a sequence without quotation marks have none. -/
private theorem QuoteFree.of_mem {items : List Value} (h : (seq items).QuoteFree) {v : Value}
    (hv : v ∈ items) : v.QuoteFree := by
  intro s hs
  refine h s ?_
  rw [texts, mem_textsAll]
  exact ⟨v, hv, hs⟩

/-- The values are the same, where numbers count as the same if they have the same text. -/
inductive Alike : Value → Value → Prop
  | null : Alike .null .null
  | bool (b : Bool) : Alike (.bool b) (.bool b)
  | number {m n : Number} (h : m.text = n.text) : Alike (.number m) (.number n)
  | text (s : String) : Alike (.text s) (.text s)
  | seq {items items' : List Value} (h : List.Forall₂ Alike items items') :
    Alike (.seq items) (.seq items')

end Value

/-! ## Writing with an agenda -/

namespace LiteralStyle

variable (style : LiteralStyle)

/-- The text that a piece stands for. -/
def pieceText : Piece → String
  | .text s => s
  | .value v => style.text v

/-- The text that an agenda stands for. -/
def agendaText : List Piece → String
  | [] => ""
  | piece :: rest => style.pieceText piece ++ agendaText rest

/-- Two agendas in a row are written one after the other. -/
private theorem agendaText_append (before after : List Piece) :
    style.agendaText (before ++ after) = style.agendaText before ++ style.agendaText after := by
  induction before with
  | nil => simp [agendaText]
  | cons piece before ih => simp [agendaText, ih, String.append_assoc]

/-- The pieces of a sequence make up its elements. -/
private theorem agendaText_pieces (items : List Value) :
    style.agendaText (style.pieces items) = style.elements items := by
  fun_induction pieces style items with
  | case1 => simp [agendaText, elements]
  | case2 v => simp [agendaText, pieceText, elements]
  | case3 v w rest ih => simp [agendaText, pieceText, elements, ih, String.append_assoc]

/-- Writing an agenda puts its text behind what was there. -/
private theorem writePieces_eq_append (out : String) (agenda : List Piece) :
    style.writePieces out agenda = out ++ style.agendaText agenda := by
  fun_induction writePieces style out agenda with
  | case1 out => simp [agendaText]
  | case2 out s rest ih => simp [ih, agendaText, pieceText, String.append_assoc]
  | case3 out items rest ih =>
    simp [ih, agendaText, pieceText, text, agendaText_append, agendaText_pieces,
      String.append_assoc]
  | case4 out v rest hseq ih =>
    -- A value that is not a sequence is written as a whole.
    have htext : style.text v = style.scalar v := by
      cases v with
      | seq items => exact absurd rfl (hseq items)
      | null | bool | number | text => simp [text]
    simp [ih, agendaText, pieceText, htext, String.append_assoc]

/-- Writing a value puts its text behind what was there. -/
private theorem write_eq_append (out : String) (v : Value) :
    style.write out v = out ++ style.text v := by
  rw [write, writePieces_eq_append]
  simp [agendaText, pieceText]

/-- The literal of a value is its text, although it is written without recursion. -/
theorem literal_eq_text (v : Value) : style.literal v = style.text v := by
  rw [literal, write_eq_append, String.empty_append]

/-- Elements are listed with separators, and with a mark behind the last one if the style asks for
    it. -/
private theorem elements_eq_listing (items : List Value) :
    style.elements items =
      listing style.separator style.afterLast (items.map style.text) := by
  induction items with
  | nil => rfl
  | cons v vs ih =>
    cases vs with
    | nil => rfl
    | cons w vs => rw [elements, ih]; rfl

/-- The literal of a sequence. -/
private theorem text_seq (items : List Value) :
    style.text (.seq items) = style.opening ++ join style.separator (items.map style.text) ++
      (if style.trailing = true ∧ items ≠ [] then style.separator else "") ++ style.closing := by
  rw [text, elements_eq_listing, listing_eq_append, afterLast, ← String.append_assoc]
  congr 2
  cases items with
  | nil => simp
  | cons v vs => simp

/-- Writing a value appends its literal to the buffer and leaves the rest of it as it was.  The
    literal of a sequence holds those of its elements with a separator between each two of them, and
    one more behind the last if the style says so. -/
theorem write_appends :
    (∀ out v, style.write out v = out ++ style.text v) ∧
    style.text .null = style.absent ∧
    (∀ b, style.text (.bool b) = if b then style.yes else style.no) ∧
    (∀ n, style.text (.number n) = n.text) ∧
    (∀ s, style.text (.text s) = "'" ++ s ++ "'") ∧
    ∀ items, style.text (.seq items) =
      style.opening ++ join style.separator (items.map style.text) ++
        (if style.trailing = true ∧ items ≠ [] then style.separator else "") ++ style.closing := by
  refine ⟨style.write_eq_append, rfl, fun b => ?_, fun n => rfl, fun s => rfl, style.text_seq⟩
  cases b with
  | true => rfl
  | false => rfl

/-! ## Reading literals back -/

/-- The characters with which the spellings of a style and text values begin. -/
def marks : List (Option Char) :=
  [style.opening, style.closing, style.separator, style.yes, style.no, style.absent, "'"].map
    fun s => s.toList.head?

/-- The spellings of the style can be told apart from each other and from numbers by their first
    characters, and sequences show where their elements end. -/
structure Readable : Prop where
  marksNodup : style.marks.Nodup
  marksNoNumber : ∀ mark ∈ style.marks, ∃ c, mark = some c ∧ isNumberChar c = false
  separates : IsDelimiter style.separator
  closes : IsDelimiter style.closing

/-- Both styles can be read back: that of Python, … -/
theorem python_readable : python.Readable where
  marksNodup := by decide
  marksNoNumber := by simp [marks, python, isNumberChar]
  separates := ⟨',', rfl, rfl⟩
  closes := ⟨')', rfl, rfl⟩

/-- … and that of JavaScript. -/
private theorem javascript_readable : javascript.Readable where
  marksNodup := by decide
  marksNoNumber := by simp [marks, javascript, isNumberChar]
  separates := ⟨',', rfl, rfl⟩
  closes := ⟨']', rfl, rfl⟩

/-- The first character of a literal. -/
def lead : Value → Option Char
  | .null => style.absent.toList.head?
  | .bool true => style.yes.toList.head?
  | .bool false => style.no.toList.head?
  | .number n => n.text.toList.head?
  | .text _ => "'".toList.head?
  | .seq _ => style.opening.toList.head?

variable {style}

/-- What begins with a mark can be told by its first character. -/
theorem Readable.head?_append (h : style.Readable) {s : String}
    (hs : s.toList.head? ∈ style.marks) (r : List Char) :
    (s.toList ++ r).head? = s.toList.head? := by
  obtain ⟨c, hc, _⟩ := h.marksNoNumber _ hs
  rw [List.head?_append, hc]
  rfl

/-- The first character of a literal tells what kind of value follows. -/
private theorem Readable.head?_text (h : style.Readable) (v : Value) (r : List Char) :
    ((style.text v).toList ++ r).head? = style.lead v := by
  cases v with
  | null => exact @Readable.head?_append style h style.absent (by simp [marks]) r
  | bool b =>
    cases b with
    | true => exact @Readable.head?_append style h style.yes (by simp [marks]) r
    | false => exact @Readable.head?_append style h style.no (by simp [marks]) r
  | number n => exact List.head?_append_of_ne_nil _ n.text_ne_empty
  | text s => simp [text, scalar, lead]
  | seq items =>
    rw [text, String.append_assoc, String.toList_append, List.append_assoc]
    exact h.head?_append (by simp [marks]) _

/-- The place among the marks of the one that a literal begins with.  Numbers have no mark. -/
def place : Value → Nat
  | .seq _ => 0
  | .bool true => 3
  | .bool false => 4
  | .null => 5
  | .text _ => 6
  | .number _ => 7

/-- Each sort of value that is not a number has a mark of its own. -/
private theorem marks_place (style : LiteralStyle) :
    ∀ v, (∃ n, v = .number n) ∨ style.marks[place v]? = some (style.lead v)
  | .number n => .inl ⟨n, rfl⟩
  | .null => .inr rfl
  | .bool true => .inr rfl
  | .bool false => .inr rfl
  | .text _ => .inr rfl
  | .seq _ => .inr rfl

/-- A mark that a literal begins with is the one at its place. -/
theorem Readable.eq_place (h : style.Readable) {v : Value} {i : Nat}
    (hi : style.marks[i]? = some (style.lead v)) : i = place v := by
  rcases style.marks_place v with ⟨n, rfl⟩ | hplace
  · -- No mark begins a number.
    obtain ⟨c, hc, hmark⟩ := h.marksNoNumber _ (List.mem_of_getElem? hi)
    have hnumber := n.isNumberChar_of_mem_text c (List.mem_of_head? hc)
    rw [hmark] at hnumber
    cases hnumber
  · have hlt : i < style.marks.length := (List.getElem?_eq_some_iff.mp hi).1
    exact (List.getElem?_inj hlt h.marksNodup).mp (hi.trans hplace.symm)

/-- The values are of the same sort; each of the two truth values is a sort of its own. -/
inductive SameSort : Value → Value → Prop
  | null : SameSort .null .null
  | bool (b : Bool) : SameSort (.bool b) (.bool b)
  | number (m n : Number) : SameSort (.number m) (.number n)
  | text (s t : String) : SameSort (.text s) (.text t)
  | seq (items items' : List Value) : SameSort (.seq items) (.seq items')

/-- Values with the same mark are of the same sort. -/
private theorem sameSort_of_place {v w : Value} (h : place v = place w) : SameSort v w := by
  rcases v with _ | (_ | _) | _ | _ | _ <;> rcases w with _ | (_ | _) | _ | _ | _ <;>
    first | constructor | cases h

/-- Literals that begin alike are those of values of the same sort. -/
private theorem Readable.sameSort (h : style.Readable) {v w : Value}
    (hlead : style.lead v = style.lead w) : SameSort v w := by
  refine sameSort_of_place ?_
  rcases style.marks_place v with ⟨m, rfl⟩ | hv
  · rcases style.marks_place w with ⟨n, rfl⟩ | hw
    · rfl
    · exact (h.eq_place (hlead ▸ hw)).symm
  · exact h.eq_place (hlead ▸ hv)

/-- No literal begins like the end of a sequence. -/
private theorem Readable.lead_ne_close (h : style.Readable) (v : Value) :
    style.lead v ≠ style.closing.toList.head? := by
  intro hlead
  have hplace : 1 = place v := h.eq_place (by rw [hlead]; rfl)
  match v, hplace with
  | .bool true, hplace => cases hplace
  | .bool false, hplace => cases hplace

/-- The elements of a sequence are set off from what follows. -/
private theorem Readable.listFormat (h : style.Readable) :
    ListFormat style.separator style.afterLast style.closing where
  delimits := h.separates
  closes := h.closes
  distinct := by
    have := h.marksNodup
    simp only [marks, List.map_cons, List.map_nil, List.nodup_cons, List.mem_cons, not_or] at this
    exact Ne.symm this.2.1.1
  lastEq := by
    unfold afterLast
    split
    · exact .inr rfl
    · exact .inl rfl

/-- Two literals that are the same text stand for the same value and end at the same place. -/
theorem Readable.text_append_inj (hstyle : style.Readable) {v w : Value} {r r' : List Char}
    (hv : v.QuoteFree) (hw : w.QuoteFree) (hr : Ended r) (hr' : Ended r')
    (h : (style.text v).toList ++ r = (style.text w).toList ++ r') : v.Alike w ∧ r = r' := by
  -- The first character decides the sort of both values, so the cases below are on one of them.
  have hsort : SameSort v w := by
    refine hstyle.sameSort ?_
    rw [← hstyle.head?_text v r, h, hstyle.head?_text]
  induction v using Value.induction generalizing w r r' with
  | null =>
    cases hsort
    exact ⟨.null, List.append_cancel_left h⟩
  | bool b =>
    cases hsort
    exact ⟨.bool b, List.append_cancel_left h⟩
  | number m =>
    cases hsort with
    | number m n =>
      -- A number goes on as long as there are token characters.
      have htoken : ∀ k : Number, ∀ c ∈ k.text.toList, isTokenChar c = true := by
        intro k c hc
        rw [isTokenChar, k.isNumberChar_of_mem_text c hc, Bool.or_true]
      obtain ⟨htext, hrest⟩ := token_append_inj (htoken m) (htoken n) hr hr' h
      exact ⟨.number htext, hrest⟩
  | text s =>
    cases hsort with
    | text s t =>
      -- A string goes on up to its quotation mark, as there is none in it.
      have hs : '\'' ∉ s.toList := hv s (by simp [Value.texts])
      have ht : '\'' ∉ t.toList := hw t (by simp [Value.texts])
      simp only [text, scalar, String.toList_append, List.append_assoc] at h
      obtain ⟨htext, hrest⟩ := upTo_append_inj hs ht (List.append_cancel_left h)
      exact ⟨htext ▸ .text s, hrest⟩
  | seq items ih =>
    cases hsort with
    | seq items items' =>
      simp only [text, String.toList_append, List.append_assoc, elements_eq_listing] at h
      -- A sequence goes on up to its closing bracket, with which no element begins.
      have hbegin : ∀ (u : Value) (s : List Char),
          ((style.text u).toList ++ s).head? ≠ style.closing.toList.head? := by
        intro u s
        rw [hstyle.head?_text]
        exact hstyle.lead_ne_close u
      have hitem : ∀ a ∈ items, ∀ b ∈ items', ∀ s s', Ended s → Ended s' →
          (style.text a).toList ++ s = (style.text b).toList ++ s' → a.Alike b ∧ s = s' := by
        intro a ha b hb s s' hs hs' hab
        refine ih a ha (hv.of_mem ha) (hw.of_mem hb) hs hs' hab (hstyle.sameSort ?_)
        rw [← hstyle.head?_text a s, hab, hstyle.head?_text]
      obtain ⟨hitems, hrest⟩ := listing_append_inj hstyle.listFormat (fun u _ => hbegin u)
        (fun u _ => hbegin u) hitem (List.append_cancel_left h)
      exact ⟨.seq hitems, hrest⟩

/-- Values that are alike have the same literal. -/
theorem text_of_alike (style : LiteralStyle) {v w : Value} (h : v.Alike w) :
    style.text v = style.text w := by
  induction v using Value.induction generalizing w with
  | null | bool | text =>
    cases h
    rfl
  | number m =>
    cases h with
    | number h => exact h
  | seq items ih =>
    cases h with
    | @seq _ items' hitems =>
      -- Alike elements have equal texts, by the induction hypothesis.
      have htexts : List.Forall₂ (fun a b => style.text a = style.text b) items items' :=
        ((List.forall₂_and_left _ _).mpr ⟨fun a ha w => @ih a ha w, hitems⟩).imp fun a b hab =>
          hab.1 b hab.2
      have hmap : items.map style.text = items'.map style.text := by
        rw [← List.forall₂_eq_eq_eq, List.forall₂_map_left_iff, List.forall₂_map_right_iff]
        exact htexts
      rw [text, text, elements_eq_listing, elements_eq_listing, hmap]

/-- In both languages the literal of a value tells the value, as long as no text in it holds a
    quotation mark.  Numbers are told by their texts. -/
theorem literal_unambiguous {style : LiteralStyle} (hstyle : style = python ∨ style = javascript)
    {v w : Value} (hv : v.QuoteFree) (hw : w.QuoteFree) :
    style.literal v = style.literal w ↔ v.Alike w := by
  have hreadable : style.Readable := by
    rcases hstyle with rfl | rfl
    · exact python_readable
    · exact javascript_readable
  have hend : Ended [] := nofun
  rw [literal_eq_text, literal_eq_text]
  refine ⟨fun h => ?_, style.text_of_alike⟩
  exact (hreadable.text_append_inj hv hw hend hend (congrArg (·.toList ++ []) h)).1

/-- A text that looks like two elements of a sequence is not taken for them, so the literals of the
    text and of the elements differ in both languages. -/
theorem literal_unambiguous_imitation :
    (Value.seq [.text "1, []", .seq [.null]]).QuoteFree ∧
    (Value.seq [.number (.int 1), .seq [], .seq [.null]]).QuoteFree ∧
    python.literal (.seq [.text "1, []", .seq [.null]]) ≠
      python.literal (.seq [.number (.int 1), .seq [], .seq [.null]]) ∧
    javascript.literal (.seq [.text "1, []", .seq [.null]]) ≠
      javascript.literal (.seq [.number (.int 1), .seq [], .seq [.null]]) := by
  have hv : (Value.seq [.text "1, []", .seq [.null]]).QuoteFree := by decide
  have hw : (Value.seq [.number (.int 1), .seq [], .seq [.null]]).QuoteFree := by decide
  have hdiffer : ¬ (Value.seq [.text "1, []", .seq [.null]]).Alike
      (.seq [.number (.int 1), .seq [], .seq [.null]]) := by
    intro halike
    cases halike with
    | seq hitems =>
      obtain ⟨hfirst, _⟩ := List.forall₂_cons.mp hitems
      cases hfirst
  exact ⟨hv, hw, mt (literal_unambiguous (.inl rfl) hv hw).mp hdiffer,
    mt (literal_unambiguous (.inr rfl) hv hw).mp hdiffer⟩

end LiteralStyle

end LayerGraph
