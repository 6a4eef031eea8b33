import LayerGraph.Json.Reader

/-! # JSON strings

Strings are written with the short escapes where there is one and with `\u00xx` for the other
control characters; all other characters stand for themselves.  Strings are read with all escapes
of JSON, and a pair of `\u` escapes that forms a surrogate pair is one character. -/

namespace LayerGraph.Json

/-- The characters with a short escape, each after the letter of its escape. -/
def shortEscapes : List (Char × Char) := [
  ('"', '"'), ('\\', '\\'), ('b', '\x08'), ('f', '\x0c'), ('n', '\n'), ('r', '\r'), ('t', '\t')]

/-- The character that a short escape stands for.  A slash may be escaped, but never is when
    strings are written. -/
def unescape? (letter : Char) : Option Char :=
  if letter = '/' then some '/' else shortEscapes.lookup letter

/-- The value of a hexadecimal digit. -/
def hexDigit? (c : Char) : Option Nat :=
  if c.isDigit then some (c.toNat - '0'.toNat)
  else if 'a' ≤ c ∧ c ≤ 'f' then some (c.toNat - 'a'.toNat + 10)
  else if 'A' ≤ c ∧ c ≤ 'F' then some (c.toNat - 'A'.toNat + 10)
  else none

/-- Reads the four digits of a `\u` escape.  The text is cut short if fewer than four bytes of it
    are left. -/
def fourHex : Reader Nat
  | a :: b :: c :: d :: rest =>
    match hexDigit? a, hexDigit? b, hexDigit? c, hexDigit? d with
    | some a, some b, some c, some d =>
      .ok ⟨((a * 16 + b) * 16 + c) * 16 + d, rest, by simp only [List.length_cons]; omega⟩
    | _, _, _, _ => .error .malformed
  | short => .error (if (String.ofList short).utf8ByteSize < 4 then .truncated else .malformed)

/-- Whether a code unit opens a surrogate pair. -/
def isHighSurrogate (unit : Nat) : Bool := 0xD800 ≤ unit && unit ≤ 0xDBFF

/-- Whether a code unit closes a surrogate pair. -/
def isLowSurrogate (unit : Nat) : Bool := 0xDC00 ≤ unit && unit ≤ 0xDFFF

/-- Reads what follows `\u`: one code unit, or two that form a surrogate pair. -/
def codeUnits : Reader Char := fun cs => do
  let ⟨unit, rest, h⟩ ← fourHex cs
  if isLowSurrogate unit then throw .malformed
  else if isHighSurrogate unit then
    -- The second half of the pair must follow as an escape of its own.
    let ⟨more, h'⟩ ← expect ['\\', 'u'] rest
    let ⟨second, rest', h''⟩ ← fourHex more
    if isLowSurrogate second then
      return ⟨Char.ofNat ((unit - 0xD800) * 0x400 + (second - 0xDC00) + 0x10000), rest', by omega⟩
    else throw .malformed
  else return ⟨Char.ofNat unit, rest, h⟩

/-- Reads one character of a string, or its closing quote. -/
def character : Reader (Option Char)
  | [] => .error .truncated
  | c :: rest =>
    if c = '"' then .ok ⟨none, rest, length_tail_lt c rest⟩
    else if c = '\\' then
      match rest with
      | [] => .error .truncated
      | e :: more =>
        if e = 'u' then do
          let p ← codeUnits more
          return ((p.map some).past e).past c
        else match unescape? e with
          | some unescaped => .ok (.past c ⟨some unescaped, more, length_tail_lt e more⟩)
          | none => .error .malformed
    else if c.toNat < 0x20 then .error .malformed
    else .ok ⟨some c, rest, length_tail_lt c rest⟩

/-- Reads the characters of a string up to its closing quote, after those in `read`, which come
    last one first. -/
def characters (bound : Nat) (read cs : List Char) (h : cs.length ≤ bound) :
    Except Fault (Parsed String bound) :=
  match character cs with
  | .error fault => .error fault
  | .ok ⟨none, rest, h'⟩ => .ok ⟨String.ofList read.reverse, rest, by omega⟩
  | .ok ⟨some c, rest, _⟩ => characters bound (c :: read) rest (by omega)
termination_by cs.length

/-- Reads a string whose opening quote has been read. -/
def stringBody : Reader String := .within fun bound cs h => characters bound [] cs h

/-- The digits of a number below sixteen squared, in hexadecimal. -/
def twoHex (n : Nat) : List Char := [Nat.digitChar (n / 16), Nat.digitChar (n % 16)]

/-- A character as it is written in a string. -/
def escape (c : Char) : List Char :=
  match shortEscapes.find? fun e => e.2 = c with
  | some e => ['\\', e.1]
  | none => if c.toNat < 0x20 then '\\' :: 'u' :: '0' :: '0' :: twoHex c.toNat else [c]

/-- A string between quotes. -/
def quote (s : String) : String :=
  String.ofList ('"' :: s.toList.flatMap escape ++ ['"'])

end LayerGraph.Json
