/-! # Reading JSON text

A reader takes a value off the front of a text.  Its result holds the text that is left together
with the proof that it is shorter, so a loop over the elements of an array ends because the text
does.  The first problem that a reader meets decides the `Fault`. -/

namespace LayerGraph.Json

/-- Why a text was refused. -/
inductive Fault where
  /-- The text ends before the value does. -/
  | truncated
  /-- The text is not JSON, or nests too deeply, or holds a number that is too large. -/
  | malformed
  /-- The text is JSON so far, but not of the type that is wanted. -/
  | mismatched
deriving DecidableEq, Repr

/-- What was read: a value, and the text after it, which is shorter than `bound`. -/
structure Parsed (α : Type) (bound : Nat) where
  value : α
  rest : List Char
  shorter : rest.length < bound

/-- Reads a value from the front of a text. -/
abbrev Reader (α : Type) : Type := (cs : List Char) → Except Fault (Parsed α cs.length)

variable {α β : Type}

/-- The same reading with `f` applied to the value. -/
def Parsed.map {n : Nat} (f : α → β) (p : Parsed α n) : Parsed β n :=
  ⟨f p.value, p.rest, p.shorter⟩

/-- The same reading under a larger bound. -/
def Parsed.widen {m n : Nat} (p : Parsed α m) (h : m ≤ n) : Parsed α n :=
  ⟨p.value, p.rest, Nat.lt_of_lt_of_le p.shorter h⟩

theorem length_tail_lt (c : Char) (rest : List Char) : rest.length < (c :: rest).length := by
  simp

/-- The same reading of a text that has one more character at its front. -/
def Parsed.past {rest : List Char} (c : Char) (p : Parsed α rest.length) :
    Parsed α (c :: rest).length :=
  p.widen (Nat.le_of_lt (length_tail_lt c rest))

/-- Reads a value and applies `f` to it. -/
def Reader.map (f : α → β) (read : Reader α) : Reader β := fun cs => do
  let p ← read cs
  return p.map f

/-- Reads a value and converts it; a value that `f` does not accept has the wrong type. -/
def Reader.check (f : α → Option β) (read : Reader α) : Reader β := fun cs => do
  let p ← read cs
  match f p.value with
  | some b => return p.map fun _ => b
  | none => throw .mismatched

/-- A reader of whole texts from one that reads on within a bound. -/
def Reader.within
    (read : (bound : Nat) → (cs : List Char) → cs.length ≤ bound →
      Except Fault (Parsed α bound)) : Reader α :=
  fun cs => read cs.length cs (Nat.le_refl _)

/-- The characters that may stand between two parts of a JSON text. -/
def isBlank (c : Char) : Bool := c == ' ' || c == '\t' || c == '\n' || c == '\r'

/-- A text without the blanks at its front. -/
def skipBlanks (cs : List Char) : List Char := cs.dropWhile isBlank

/-- Skipping blanks leaves no more than there was. -/
theorem length_skipBlanks_le (cs : List Char) : (skipBlanks cs).length ≤ cs.length :=
  (List.dropWhile_sublist _).length_le

/-- Reads a value that may have blanks before it. -/
def Reader.afterBlanks (read : Reader α) : Reader α := fun cs => do
  let p ← read (skipBlanks cs)
  return p.widen (length_skipBlanks_le cs)

/-- Reads a fixed word. -/
def expect : (word cs : List Char) →
    Except Fault { rest : List Char // rest.length + word.length = cs.length }
  | [], cs => .ok ⟨cs, rfl⟩
  | _ :: _, [] => .error .truncated
  | w :: ws, c :: cs =>
    if c = w then do
      let ⟨rest, h⟩ ← expect ws cs
      return ⟨rest, by simp only [List.length_cons]; omega⟩
    else .error .malformed

/-- Reads the rest of a word whose first letter `c` has been read. -/
def word (value : α) (letters : List Char) (c : Char) (rest : List Char) :
    Except Fault (Parsed α (c :: rest).length) := do
  let ⟨rest', h⟩ ← expect letters rest
  return ⟨value, rest', by simp only [List.length_cons]; omega⟩

/-- Reads the first character that is not blank. -/
def front : Reader Char := Reader.afterBlanks fun
  | [] => .error .truncated
  | c :: rest => .ok ⟨c, rest, length_tail_lt c rest⟩

/-- Reads a mark such as a colon or a closing bracket. -/
def mark (c : Char) : Reader Unit := fun cs => do
  let p ← front cs
  if p.value = c then return p.map fun _ => () else throw .malformed

/-- Reads one value from a text that holds nothing else but blanks. -/
def parse (read : Reader α) (text : String) : Except Fault α := do
  let p ← read text.toList
  if (skipBlanks p.rest).isEmpty then return p.value else throw .malformed

/-- How many arrays and objects may be open at the same time. -/
def maxDepth : Nat := 127

end LayerGraph.Json
