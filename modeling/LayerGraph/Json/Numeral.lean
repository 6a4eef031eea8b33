import LayerGraph.Json.Reader
import LayerGraph.Number

/-! # JSON numbers

A `Numeral` is a number as it is written; `Numeral.number?` is its value.  Integers are exact as
long as they fit into 64 bits.  All other numbers are floating-point numbers, found from a 64-bit
significand and a power of ten with one rounding for each of the two and one for their product or
quotient, which is fast but not always the nearest number. -/

namespace LayerGraph.Json

/-- A number as it is written: the digits before the point, the digits after the point, and an
    exponent with the sign that it has. -/
structure Numeral where
  negative : Bool
  whole : List Char
  fraction : Option (List Char)
  exponent : Option (Bool × List Char)
deriving DecidableEq, Repr

namespace Numeral

/-- Splits the digits off the front of a text. -/
def spanDigits (cs : List Char) : List Char × List Char :=
  (cs.takeWhile Char.isDigit, cs.dropWhile Char.isDigit)

/-- What stands behind some digits is shorter than all of the text. -/
private theorem length_spanDigits_lt (c : Char) (rest : List Char) :
    (spanDigits rest).2.length < (c :: rest).length :=
  Nat.lt_succ_of_le (List.dropWhile_sublist _).length_le

/-- Reads at least one digit. -/
def someDigits : Reader (List Char)
  | [] => .error .truncated
  | c :: rest =>
    if c.isDigit then
      .ok ⟨c :: (spanDigits rest).1, (spanDigits rest).2, length_spanDigits_lt c rest⟩
    else .error .malformed

/-- Reads the digits before the point.  Only zero itself starts with a zero. -/
def wholeDigits : Reader (List Char) := fun cs => do
  let p ← someDigits cs
  match p.value with
  | '0' :: _ :: _ => throw .malformed
  | _ => return p

/-- Reads the fraction, if there is one. -/
def fractionDigits : (cs : List Char) → Except Fault (Parsed (Option (List Char)) (cs.length + 1))
  | '.' :: rest => do
    let ⟨digits, rest', h⟩ ← someDigits rest
    return ⟨some digits, rest', by simp only [List.length_cons]; omega⟩
  | cs => .ok ⟨none, cs, by omega⟩

/-- Reads the sign of an exponent; without one it is positive. -/
def exponentSign : (cs : List Char) → Parsed Bool (cs.length + 1)
  | '-' :: rest => ⟨true, rest, by simp only [List.length_cons]; omega⟩
  | '+' :: rest => ⟨false, rest, by simp only [List.length_cons]; omega⟩
  | cs => ⟨false, cs, by omega⟩

/-- Reads the exponent, if there is one. -/
def exponentPart : (cs : List Char) →
    Except Fault (Parsed (Option (Bool × List Char)) (cs.length + 1))
  | c :: rest =>
    if c = 'e' ∨ c = 'E' then do
      let ⟨negative, more, h⟩ := exponentSign rest
      let ⟨digits, rest', h'⟩ ← someDigits more
      return ⟨some (negative, digits), rest', by simp only [List.length_cons]; omega⟩
    else .ok ⟨none, c :: rest, by omega⟩
  | [] => .ok ⟨none, [], by omega⟩

/-- Reads a number after its sign. -/
def unsigned (negative : Bool) : Reader Numeral := fun cs => do
  let ⟨whole, rest, h⟩ ← wholeDigits cs
  let ⟨fraction, rest', h'⟩ ← fractionDigits rest
  let ⟨exponent, rest'', h''⟩ ← exponentPart rest'
  return ⟨⟨negative, whole, fraction, exponent⟩, rest'', by omega⟩

/-- Reads a number. -/
def read : Reader Numeral
  | '-' :: rest => do
    let p ← unsigned true rest
    return p.past '-'
  | cs => unsigned false cs

/-- The value of a decimal digit. -/
def digitValue (c : Char) : Nat := c.toNat - '0'.toNat

/-- The largest significand. -/
def maxSignificand : Nat := Nat.pow 2 64 - 1

/-- The largest written exponent that is taken at its value. -/
def maxExponent : Nat := Nat.pow 2 31 - 1

/-- Appends digits to a significand as long as they fit.  Returns the significand and the digits
    from the first one on that does not fit. -/
def absorb (significand : Nat) : List Char → Nat × List Char
  | [] => (significand, [])
  | c :: rest =>
    let next := significand * 10 + digitValue c
    if next ≤ maxSignificand then absorb next rest else (significand, c :: rest)

/-- A power of ten, rounded to the nearest floating-point number. -/
def powerOfTen (n : Nat) : Float := Float.ofScientific 1 false n

/-- The product `x * 10 ^ exponent`, or nothing if it is too large.  Powers beyond `10 ^ 308` are
    out of reach, so a very small number is divided several times. -/
def scale (x : Float) (exponent : Int) : Option Float :=
  if exponent.natAbs ≤ 308 then
    if 0 ≤ exponent then
      let product := x * powerOfTen exponent.natAbs
      if product.isInf then none else some product
    else some (x / powerOfTen exponent.natAbs)
  else if x == 0 then some x
  else if 0 ≤ exponent then none
  else scale (x / powerOfTen 308) (exponent + 308)
termination_by exponent.natAbs

/-- The magnitude of a number that is not an integer, or nothing if it is too large. -/
def magnitude? (n : Numeral) : Option Float :=
  let (high, excess) := absorb 0 n.whole
  let fraction := n.fraction.getD []
  let (significand, dropped) := absorb high fraction
  -- Digits before the point that did not fit raise the exponent, digits after it that did lower it.
  let point : Int := excess.length - (fraction.length - dropped.length : Nat)
  let x := Float.ofNat significand
  match n.exponent with
  | none => scale x point
  | some (negative, digits) =>
    let written := digits.foldl (fun e c => e * 10 + digitValue c) 0
    if written ≤ maxExponent then scale x (if negative then point - written else point + written)
    -- Zero stays zero under any exponent, and a large negative exponent makes anything zero.
    else if significand = 0 ∨ negative then some 0
    else none

/-- The value of a number, or nothing if it is too large.  A negative integer that does not fit
    into 64 bits, and `-0`, are floating-point numbers. -/
def number? (n : Numeral) : Option Number :=
  let float? := n.magnitude?.map fun x => .float (if n.negative then -x else x)
  match n.fraction, n.exponent, absorb 0 n.whole with
  | none, none, (significand, []) =>
    if !n.negative then some (.int significand)
    else if 1 ≤ significand ∧ significand ≤ Nat.pow 2 63 then some (.int (-significand))
    else float?
  | _, _, _ => float?

end Numeral

/-- Reads a number and its value. -/
def number : Reader Number := fun cs => do
  let p ← Numeral.read cs
  match p.value.number? with
  | some n => return p.map fun _ => n
  | none => throw .malformed

end LayerGraph.Json
