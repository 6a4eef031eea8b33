import LayerGraph.Json.Numeral
import LayerGraph.Json.Text

/-! # Skipping JSON values

The value of a field that nobody asks for is skipped.  Only its grammar is checked: arrays and
objects may nest to any depth, numbers may have any size, and a `\u` escape may be any code unit.
The brackets that are open are kept on a stack in place of a recursion. -/

namespace LayerGraph.Json

/-- An open array or object. -/
inductive Bracket where
  | square
  | curly
deriving DecidableEq, Repr

/-- The character that closes an array or object. -/
def Bracket.closing : Bracket → Char
  | square => ']'
  | curly => '}'

/-- Skips one character of a string; the value says whether it was the closing quote. -/
def skipCharacter : Reader Bool
  | [] => .error .truncated
  | c :: rest =>
    if c = '"' then .ok ⟨true, rest, length_tail_lt c rest⟩
    else if c = '\\' then
      match rest with
      | [] => .error .truncated
      | e :: more =>
        if e = 'u' then do
          let p ← fourHex more
          return ((p.map fun _ => false).past e).past c
        else if (unescape? e).isSome then .ok (.past c ⟨false, more, length_tail_lt e more⟩)
        else .error .malformed
    else if c.toNat < 0x20 then .error .malformed
    else .ok ⟨false, rest, length_tail_lt c rest⟩

/-- Skips the characters of a string and its closing quote. -/
def skipCharacters (bound : Nat) (cs : List Char) (h : cs.length ≤ bound) :
    Except Fault (Parsed Unit bound) :=
  match skipCharacter cs with
  | .error fault => .error fault
  | .ok ⟨true, rest, _⟩ => .ok ⟨(), rest, by omega⟩
  | .ok ⟨false, rest, _⟩ => skipCharacters bound rest (by omega)
termination_by cs.length

/-- Skips a string whose opening quote has been read. -/
def skipString : Reader Unit := .within skipCharacters

/-- Skips a number.  Here a number that the text cuts short counts as malformed. -/
def skipNumber : Reader Unit := fun cs =>
  match Numeral.read cs with
  | .ok p => .ok (p.map fun _ => ())
  | .error _ => .error .malformed

/-- Skips a word, string or number. -/
def skipScalar : Reader Unit
  | [] => .error .truncated
  | c :: rest =>
    if c = 'n' then word () "ull".toList c rest
    else if c = 't' then word () "rue".toList c rest
    else if c = 'f' then word () "alse".toList c rest
    else if c = '"' then do
      let p ← skipString rest
      return p.past c
    else if c = '-' ∨ c.isDigit then skipNumber (c :: rest)
    else .error .malformed

/-- Skips the name of a member and the colon after it. -/
def skipName : Reader Unit := fun cs => do
  let ⟨_, rest, h⟩ ← mark '"' cs
  let ⟨_, rest', h'⟩ ← skipString rest
  let ⟨_, rest'', h''⟩ ← mark ':' rest'
  return ⟨(), rest'', by omega⟩

mutual
/-- Skips a value, and then what is left of the arrays and objects on the stack. -/
def skipValue (bound : Nat) (stack : List Bracket) (cs : List Char) (h : cs.length ≤ bound) :
    Except Fault (Parsed Unit bound) :=
  match front cs with
  | .error fault => .error fault
  | .ok ⟨c, rest, _⟩ =>
    if c = '[' then skipOpened bound .square stack rest (by omega)
    else if c = '{' then skipOpened bound .curly stack rest (by omega)
    else match skipScalar (c :: rest) with
      | .error fault => .error fault
      | .ok ⟨_, rest', h'⟩ =>
        have : rest'.length < rest.length + 1 := h'
        skipClosed bound stack rest' (by omega)
termination_by (cs.length, 1)

/-- Skips the contents of an array or object that has just been opened. -/
def skipOpened (bound : Nat) (top : Bracket) (stack : List Bracket) (cs : List Char)
    (h : cs.length < bound) : Except Fault (Parsed Unit bound) :=
  match front cs with
  | .error fault => .error fault
  | .ok ⟨c, rest, _⟩ =>
    if c = top.closing then skipClosed bound stack rest (by omega)
    else skipItem bound top stack cs (by omega)
termination_by (cs.length, 3)

/-- Skips an element or a member of the innermost array or object, and what comes after it. -/
def skipItem (bound : Nat) (top : Bracket) (stack : List Bracket) (cs : List Char)
    (h : cs.length ≤ bound) : Except Fault (Parsed Unit bound) :=
  match top with
  | .square => skipValue bound (.square :: stack) cs h
  | .curly =>
    match skipName cs with
    | .error fault => .error fault
    | .ok ⟨_, rest, _⟩ => skipValue bound (.curly :: stack) rest (by omega)
termination_by (cs.length, 2)

/-- Skips what is left of the arrays and objects on the stack after a complete value. -/
def skipClosed (bound : Nat) (stack : List Bracket) (cs : List Char) (h : cs.length < bound) :
    Except Fault (Parsed Unit bound) :=
  match stack with
  | [] => .ok ⟨(), cs, h⟩
  | top :: stack =>
    match front cs with
    | .error fault => .error fault
    | .ok ⟨c, rest, _⟩ =>
      if c = ',' then skipItem bound top stack rest (by omega)
      else if c = top.closing then skipClosed bound stack rest (by omega)
      else .error .malformed
termination_by (cs.length, 0)
end

/-- Skips a value of any kind. -/
def skip : Reader Unit := .within fun bound cs h => skipValue bound [] cs h

end LayerGraph.Json
