import LayerGraph.Json.Scalar

/-! # JSON arrays and objects

`elements` and `members` read what stands between the brackets.  Every item but the first has
a comma before it, and no comma stands before the closing bracket.

A value may only nest so deep.  The readers of arrays and objects take the reader for what is
inside, and where this is missing a value that opens a bracket is refused: `inside` gives it as
long as there are brackets left to open. -/

namespace LayerGraph.Json

variable {α σ : Type}

/-- What comes next between two brackets: the end, or the text of another item. -/
inductive Next (bound : Nat) where
  | closed (rest : List Char) (h : rest.length < bound)
  | item (rest : List Char) (h : rest.length ≤ bound)

/-- Looks for the next item before the bracket `closing`.  Unless it is the first, it must have
    a comma before it. -/
def next (closing : Char) (first : Bool) (cs : List Char) : Except Fault (Next cs.length) := do
  let ⟨c, rest, h⟩ ← front cs
  if c = closing then return .closed rest h
  else if first then return .item (c :: rest) h
  else if c = ',' then
    let ⟨d, rest', h'⟩ ← front rest
    if d = closing then throw .malformed
    else return .item (d :: rest') (Nat.le_trans h' (Nat.le_of_lt h))
  else throw .malformed

/-- Reads the elements of an array and its closing bracket. -/
def elements (item : Reader α) (first : Bool) (cs : List Char) :
    Except Fault (Parsed (List α) cs.length) := do
  match ← next ']' first cs with
  | .closed rest h => return ⟨[], rest, h⟩
  | .item rest h =>
    let ⟨v, rest', h'⟩ ← item rest
    let ⟨vs, rest'', h''⟩ ← elements item false rest'
    return ⟨v :: vs, rest'', by omega⟩
termination_by cs.length

/-- Reads the members of an object and its closing bracket, starting with the state `s`.  For each
    name, `member` gives the reader of the value, which returns the next state. -/
def members (member : σ → String → Except Fault (Reader σ)) (first : Bool) (s : σ)
    (cs : List Char) : Except Fault (Parsed σ cs.length) := do
  match ← next '}' first cs with
  | .closed rest h => return ⟨s, rest, h⟩
  | .item rest h =>
    let ⟨name, rest₁, h₁⟩ ← quoted rest
    let read ← member s name
    let ⟨_, rest₂, h₂⟩ ← mark ':' rest₁
    let ⟨s', rest₃, h₃⟩ ← read rest₂
    let ⟨s'', rest₄, h₄⟩ ← members member false s' rest₃
    return ⟨s'', rest₄,
      Nat.lt_of_lt_of_le (Nat.lt_trans h₄ (Nat.lt_trans h₃ (Nat.lt_trans h₂ h₁))) h⟩
termination_by cs.length

/-- Reads an array.  Without a reader for its elements it is nested too deeply. -/
def array (item : Option (Reader α)) : Reader (List α) := Reader.afterBlanks fun
  | '[' :: rest => match item with
    | some item => do return (← elements item true rest).past '['
    | none => .error .malformed
  | cs => .error (wrongType cs)

/-- Reads an object.  Without a reader for its members it is nested too deeply. -/
def object (member : Option (σ → String → Except Fault (Reader σ))) (s : σ) : Reader σ :=
  Reader.afterBlanks fun
    | '{' :: rest => match member with
      | some member => do return (← members member true s rest).past '{'
      | none => .error .malformed
    | cs => .error (wrongType cs)

/-- What reads the inside of a bracket if `depth` more brackets may be opened: nothing if there may
    be none, and otherwise `item` for one bracket fewer. -/
def inside (depth : Nat) (item : Nat → α) : Option α :=
  match depth with
  | 0 => none
  | depth + 1 => some (item depth)

end LayerGraph.Json
