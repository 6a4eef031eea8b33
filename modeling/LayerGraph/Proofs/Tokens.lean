import LayerGraph.Text.Join
import Mathlib.Data.List.Forall2

/-! # Reading texts back

When is a part of a text the only one that can stand there?  All lemmas here have the same form: two
texts begin with parts of the same kind and are the same; then the parts are the same, and so is
what follows them.  A word or a number goes on for as long as it can, so what follows it must not
continue it (`Ended`).  A list ends where its closing text comes instead of a separator.

## Key results

- `token_append_inj`, `upTo_append_inj`: words and numbers can be read back, and texts between marks
- `listing_append_inj`: lists can be read back if their items can -/

namespace LayerGraph.Text

/-- ASCII letters, digits and underscores. -/
def isWordChar (c : Char) : Bool := c.isAlphanum || c == '_'

/-- The characters that the text of a number consists of. -/
def isNumberChar (c : Char) : Bool := c.isDigit || c ∈ ['-', '+', '.', 'e']

def isTokenChar (c : Char) : Bool := isWordChar c || isNumberChar c

/-- What comes next does not continue a word or a number. -/
def Ended (rest : List Char) : Prop := ∀ c ∈ rest.head?, isTokenChar c = false

/-- The text ends a word or a number before it. -/
def IsDelimiter (s : String) : Prop := ∃ c ∈ s.toList.head?, isTokenChar c = false

private theorem IsDelimiter.toList_ne_nil {s : String} (h : IsDelimiter s) : s.toList ≠ [] := by
  obtain ⟨c, hc, _⟩ := h
  intro hnil
  rw [hnil] at hc
  cases hc

theorem IsDelimiter.head?_append {s : String} (h : IsDelimiter s) (r : List Char) :
    (s.toList ++ r).head? = s.toList.head? :=
  List.head?_append_of_ne_nil _ h.toList_ne_nil

/-- A delimiter ends what stands before it. -/
theorem IsDelimiter.ended {s : String} (h : IsDelimiter s) (r : List Char) :
    Ended (s.toList ++ r) := by
  intro c hc
  rw [h.head?_append] at hc
  obtain ⟨c', hc', hdelim⟩ := h
  cases hc.symm.trans hc'
  exact hdelim

/-! ## Words and numbers -/

/-- A run of characters with a property ends where a character does not have it. -/
theorem run_append_inj {p : Char → Bool} {w w' r r' : List Char} (hw : ∀ c ∈ w, p c = true)
    (hw' : ∀ c ∈ w', p c = true) (hr : ∀ c ∈ r.head?, p c = false)
    (hr' : ∀ c ∈ r'.head?, p c = false) (h : w ++ r = w' ++ r') : w = w' ∧ r = r' := by
  induction w generalizing w' with
  | nil =>
    cases w' with
    | nil => exact ⟨rfl, h⟩
    | cons c w' =>
      -- One run has ended and the other has not, so the next character would be both.
      have hc : p c = false := hr c (by rw [List.nil_append] at h; simp [h])
      rw [hw' c List.mem_cons_self] at hc
      cases hc
  | cons c w ih =>
    cases w' with
    | nil =>
      have hc : p c = false := hr' c (by rw [List.nil_append] at h; simp [← h])
      rw [hw c List.mem_cons_self] at hc
      cases hc
    | cons c' w' =>
      -- Both go on with the same character.
      obtain ⟨hcc, htail⟩ := List.cons.inj h
      have hrest := ih (fun x hx => hw x (List.mem_cons_of_mem _ hx))
        (fun x hx => hw' x (List.mem_cons_of_mem _ hx)) htail
      exact ⟨by rw [hcc, hrest.1], hrest.2⟩

/-- A token can be read off the text that it begins, if what follows ends it. -/
theorem token_append_inj {s s' : String} {r r' : List Char}
    (hs : ∀ c ∈ s.toList, isTokenChar c = true) (hs' : ∀ c ∈ s'.toList, isTokenChar c = true)
    (hr : Ended r) (hr' : Ended r') (h : s.toList ++ r = s'.toList ++ r') : s = s' ∧ r = r' := by
  obtain ⟨hword, hrest⟩ := run_append_inj hs hs' hr hr' h
  exact ⟨String.toList_inj.mp hword, hrest⟩

/-- A word that is not empty. -/
structure IsWord (s : String) : Prop where
  ne_empty : s ≠ ""
  wordChars : s.toList.all isWordChar = true

instance (s : String) : Decidable (IsWord s) :=
  decidable_of_iff (s ≠ "" ∧ s.toList.all isWordChar = true)
    ⟨fun h => ⟨h.1, h.2⟩, fun h => ⟨h.ne_empty, h.wordChars⟩⟩

private theorem IsWord.tokenChars {s : String} (h : IsWord s) :
    ∀ c ∈ s.toList, isTokenChar c = true := by
  intro c hc
  rw [isTokenChar, List.all_eq_true.mp h.wordChars c hc, Bool.true_or]

/-- The same for words. -/
theorem IsWord.append_inj {s s' : String} {r r' : List Char} (hs : IsWord s) (hs' : IsWord s')
    (hr : Ended r) (hr' : Ended r') (h : s.toList ++ r = s'.toList ++ r') : s = s' ∧ r = r' :=
  token_append_inj hs.tokenChars hs'.tokenChars hr hr' h

/-- A word does not begin like a delimiter. -/
theorem IsWord.head?_ne {s close : String} (hs : IsWord s) (hclose : IsDelimiter close)
    (r : List Char) : (s.toList ++ r).head? ≠ close.toList.head? := by
  obtain ⟨d, hd, hdelim⟩ := hclose
  rw [List.head?_append_of_ne_nil _ fun hnil => hs.ne_empty (String.toList_eq_nil_iff.mp hnil), hd]
  intro hhead
  rw [hs.tokenChars d (List.mem_of_head? hhead)] at hdelim
  cases hdelim

/-- A word does not begin like a delimiter. -/
theorem IsWord.append_ne {s close : String} (hs : IsWord s) (hclose : IsDelimiter close)
    (r r' : List Char) : s.toList ++ r ≠ close.toList ++ r' := by
  intro h
  have hhead := congrArg List.head? h
  rw [hclose.head?_append] at hhead
  exact hs.head?_ne hclose r hhead

/-- A text goes up to the first character that does not occur in it. -/
theorem upTo_append_inj {d : Char} {s s' : String} {r r' : List Char} (hs : d ∉ s.toList)
    (hs' : d ∉ s'.toList) (h : s.toList ++ d :: r = s'.toList ++ d :: r') : s = s' ∧ r = r' := by
  have hrun : ∀ {w : List Char}, d ∉ w → ∀ c ∈ w, decide (c ≠ d) = true := by
    intro w hd c hc
    refine decide_eq_true fun hcd => hd (hcd ▸ hc)
  obtain ⟨htext, hrest⟩ := run_append_inj (hrun hs) (hrun hs') (by simp) (by simp) h
  exact ⟨String.toList_inj.mp htext, (List.cons.inj hrest).2⟩

/-! ## Lists -/

/-- Texts with a separator between each two of them, and something behind the last one. -/
def listing (separator last : String) : List String → String
  | [] => ""
  | [s] => s ++ last
  | s :: t :: rest => s ++ separator ++ listing separator last (t :: rest)

/-- A listing is a join, with a mark behind the last element if there is one. -/
theorem listing_eq_append (separator last : String) (l : List String) :
    listing separator last l = join separator l ++ if l = [] then "" else last := by
  fun_induction join separator l with
  | case1 => rfl
  | case2 s => rfl
  | case3 s t rest ih => rw [listing, ih]; simp [String.append_assoc]

/-- Without such a mark a listing is a join. -/
theorem listing_eq_join (separator : String) (l : List String) :
    listing separator "" l = join separator l := by
  rw [listing_eq_append, ite_self, String.append_empty]

/-- A listing, element by element. -/
private theorem listing_cons (separator last s : String) (rest : List String) :
    listing separator last (s :: rest) =
      s ++ if rest = [] then last else separator ++ listing separator last rest := by
  cases rest with
  | nil => rfl
  | cons t rest => simp [listing, String.append_assoc]

/-- The separator and the closing text of a list tell its items apart and show where it ends.
    Behind the last item comes nothing or one more separator. -/
structure ListFormat (separator last close : String) : Prop where
  delimits : IsDelimiter separator
  closes : IsDelimiter close
  distinct : separator.toList.head? ≠ close.toList.head?
  lastEq : last = "" ∨ last = separator

section Listing

variable {α : Type} {f : α → String} {separator last close : String}

/-- What comes behind an item does not continue it. -/
theorem ListFormat.ended_behind (hformat : ListFormat separator last close) (rest : List String)
    (r : List Char) :
    Ended ((if rest = [] then last else separator ++ listing separator last rest).toList ++
      (close.toList ++ r)) := by
  split
  · rcases hformat.lastEq with rfl | rfl
    · exact hformat.closes.ended r
    · exact hformat.delimits.ended _
  · rw [String.toList_append, List.append_assoc]
    exact hformat.delimits.ended _

/-- A list does not go on with an item where its closing text stands. -/
theorem ListFormat.close_ne_item (hformat : ListFormat separator last close) {a : α}
    (ha : ∀ s, ((f a).toList ++ s).head? ≠ close.toList.head?) (rest : List String)
    (r r' : List Char) :
    close.toList ++ r ≠ (listing separator last (f a :: rest)).toList ++ r' := by
  intro h
  rw [listing_cons, String.toList_append, List.append_assoc] at h
  have hhead := congrArg List.head? h
  rw [hformat.closes.head?_append] at hhead
  exact ha _ hhead.symm

/-- Nor does it go on with a separator and an item where it ends. -/
theorem ListFormat.last_ne_separator (hformat : ListFormat separator last close) {a : α}
    (ha : ∀ s, ((f a).toList ++ s).head? ≠ close.toList.head?) (rest : List String)
    (r r' : List Char) :
    last.toList ++ (close.toList ++ r) ≠
      separator.toList ++ ((listing separator last (f a :: rest)).toList ++ r') := by
  intro h
  rcases hformat.lastEq with rfl | rfl
  · have hhead := congrArg List.head? h
    rw [String.toList_empty, List.nil_append, hformat.closes.head?_append,
      hformat.delimits.head?_append] at hhead
    exact hformat.distinct hhead.symm
  · exact hformat.close_ne_item ha rest r r' (List.append_cancel_left h)

/-- Behind an item both lists end, or both go on. -/
theorem ListFormat.listing_eq_of_behind (hformat : ListFormat separator last close) {l l' : List α}
    {r r' : List Char} (hbegin : ∀ a ∈ l, ∀ s, ((f a).toList ++ s).head? ≠ close.toList.head?)
    (hbegin' : ∀ a ∈ l', ∀ s, ((f a).toList ++ s).head? ≠ close.toList.head?)
    (h : (if l.map f = [] then last else separator ++ listing separator last (l.map f)).toList ++
        (close.toList ++ r) =
      (if l'.map f = [] then last else separator ++ listing separator last (l'.map f)).toList ++
        (close.toList ++ r')) :
    (listing separator last (l.map f)).toList ++ (close.toList ++ r) =
      (listing separator last (l'.map f)).toList ++ (close.toList ++ r') := by
  -- A mark behind the last element is told from a separator by what follows it.
  cases l with
  | nil =>
    cases l' with
    | nil => exact congrArg _ (List.append_cancel_left h)
    | cons b l' =>
      simp only [List.map_nil, List.map_cons, reduceIte, reduceCtorEq, String.toList_append,
        List.append_assoc] at h
      exact absurd h (hformat.last_ne_separator (hbegin' b List.mem_cons_self) _ _ _)
  | cons a l =>
    cases l' with
    | nil =>
      simp only [List.map_nil, List.map_cons, reduceIte, reduceCtorEq, String.toList_append,
        List.append_assoc] at h
      exact absurd h.symm (hformat.last_ne_separator (hbegin a List.mem_cons_self) _ _ _)
    | cons b l' =>
      simp only [List.map_cons, reduceIte, reduceCtorEq, String.toList_append,
        List.append_assoc] at h
      exact List.append_cancel_left h

/-- Two lists of a format that are the same text have the same items, as far as the text of an item
    tells, and end at the same place. -/
theorem listing_append_inj {R : α → α → Prop} (hformat : ListFormat separator last close)
    {l l' : List α} {r r' : List Char}
    (hbegin : ∀ a ∈ l, ∀ s, ((f a).toList ++ s).head? ≠ close.toList.head?)
    (hbegin' : ∀ a ∈ l', ∀ s, ((f a).toList ++ s).head? ≠ close.toList.head?)
    (hitem : ∀ a ∈ l, ∀ b ∈ l', ∀ s s', Ended s → Ended s' →
      (f a).toList ++ s = (f b).toList ++ s' → R a b ∧ s = s')
    (h : (listing separator last (l.map f)).toList ++ (close.toList ++ r) =
      (listing separator last (l'.map f)).toList ++ (close.toList ++ r')) :
    List.Forall₂ R l l' ∧ r = r' := by
  induction l generalizing l' with
  | nil =>
    cases l' with
    | nil => exact ⟨.nil, List.append_cancel_left (List.append_cancel_left h)⟩
    | cons b l' =>
      exact absurd h (hformat.close_ne_item (hbegin' b List.mem_cons_self) _ _ _)
  | cons a l ih =>
    cases l' with
    | nil => exact absurd h.symm (hformat.close_ne_item (hbegin a List.mem_cons_self) _ _ _)
    | cons b l' =>
      have hl := fun x hx => hbegin x (List.mem_cons_of_mem _ hx)
      have hl' := fun x hx => hbegin' x (List.mem_cons_of_mem _ hx)
      rw [List.map_cons, List.map_cons, listing_cons, listing_cons, String.toList_append,
        String.toList_append, List.append_assoc, List.append_assoc] at h
      -- The first elements are read off, and what stands behind them is compared.
      obtain ⟨hab, hrest⟩ := hitem a List.mem_cons_self b List.mem_cons_self _ _
        (hformat.ended_behind _ r) (hformat.ended_behind _ r') h
      obtain ⟨htail, hr⟩ := ih hl hl'
        (fun x hx y hy => hitem x (List.mem_cons_of_mem _ hx) y (List.mem_cons_of_mem _ hy))
        (hformat.listing_eq_of_behind hl hl' hrest)
      exact ⟨.cons hab htail, hr⟩

/-- Lists of words can be read back. -/
theorem join_append_inj (hformat : ListFormat separator "" close) {l l' : List String}
    {r r' : List Char} (hl : ∀ s ∈ l, IsWord s) (hl' : ∀ s ∈ l', IsWord s)
    (h : (join separator l).toList ++ (close.toList ++ r) =
      (join separator l').toList ++ (close.toList ++ r')) : l = l' ∧ r = r' := by
  rw [← List.map_id l, ← List.map_id l', ← listing_eq_join, ← listing_eq_join] at h
  obtain ⟨hwords, hrest⟩ := listing_append_inj hformat
    (fun s hs => (hl s hs).head?_ne hformat.closes) (fun s hs => (hl' s hs).head?_ne hformat.closes)
    (fun s hs s' hs' _ _ hr hr' heq => (hl s hs).append_inj (hl' s' hs') hr hr' heq) h
  exact ⟨List.forall₂_eq_eq_eq ▸ hwords, hrest⟩

end Listing

end LayerGraph.Text
