/-! # Shortest decimals

A finite floating-point number is `mantissa * 2 ^ exponent`, and every real number in a small
interval around it is read back as that number.  `Binary.shortest` finds the decimal in this
interval that has the fewest digits, and among those the one nearest to the number.

Everything is exact `Nat` arithmetic.  The grid of the multiples of `10 ^ k` is tried for a falling
`k`; on each grid only the two neighbours of the number can be nearest to it, so only these are
tested, and the first grid with a hit wins. -/

namespace LayerGraph

/-- A non-negative decimal number `digits * 10 ^ exponent`. -/
structure Decimal where
  digits : Nat
  exponent : Int
deriving DecidableEq, Repr

namespace Decimal

/-- A non-negative floating-point number `mantissa * 2 ^ exponent`.  The number before it is half
    as far away as the number after it when `narrow` is set, as it is at a power of two. -/
structure Binary where
  mantissa : Nat
  exponent : Int
  narrow : Bool
deriving DecidableEq, Repr

/-- The magnitude of a 64-bit floating-point number, from its eleven exponent bits and its 52
    fraction bits. -/
def Binary.ofFloat (x : Float) : Binary :=
  let bits : Nat := x.toBits.toNat
  let fraction : Nat := bits % Nat.pow 2 52
  let biased : Nat := bits / Nat.pow 2 52 % Nat.pow 2 11
  if biased = 0 then ⟨fraction, -1074, false⟩
  else ⟨fraction + Nat.pow 2 52, (biased : Int) - 1075, fraction == 0 && biased != 1⟩

/-- The sign bit of a 64-bit floating-point number, which zero has too. -/
def isNegative (x : Float) : Bool :=
  x.toBits.toNat / Nat.pow 2 63 == 1

namespace Binary

/-- The factors `(num, den)` that turn a count of quarters of the last binary place into a
    multiple of `10 ^ k`: `n` quarters are `n * num / den` times `10 ^ k`. -/
def ratio (b : Binary) (k : Int) : Nat × Nat :=
  let e := b.exponent - 2
  (Nat.pow 2 e.toNat * Nat.pow 10 (-k).toNat, Nat.pow 2 (-e).toNat * Nat.pow 10 k.toNat)

/-- Whether `n * 10 ^ k` is read back as this number: it lies between the midpoints to the two
    neighbours.  A midpoint itself belongs to the even mantissa. -/
def covers (b : Binary) (k : Int) (n : Nat) : Bool :=
  let (num, den) := b.ratio k
  -- The midpoints lie two quarters away, and one quarter below where the neighbour is nearer.
  let low := (4 * b.mantissa - if b.narrow then 1 else 2) * num
  let high := (4 * b.mantissa + 2) * num
  if b.mantissa % 2 = 0 then low ≤ n * den && n * den ≤ high
  else low < n * den && n * den < high

/-- The multiple of `10 ^ k` that is read back as this number, if there is one.  Of two, it is the
    nearer one, and the even one where both are equally near. -/
def onGrid (b : Binary) (k : Int) : Option Decimal :=
  let (num, den) := b.ratio k
  let below := 4 * b.mantissa * num / den
  let toBelow := 4 * b.mantissa * num - below * den
  let toAbove := (below + 1) * den - 4 * b.mantissa * num
  match b.covers k below, b.covers k (below + 1) with
  | true, true =>
    if toBelow < toAbove ∨ (toBelow = toAbove ∧ below % 2 = 0) then some ⟨below, k⟩
    else some ⟨below + 1, k⟩
  | true, false => some ⟨below, k⟩
  | false, true => some ⟨below + 1, k⟩
  | false, false => none

/-- An exponent `k` for which `10 ^ k` exceeds this number, by at most three decimal places. -/
def gridTop (b : Binary) : Int :=
  (b.exponent + Nat.log2 b.mantissa + 1) * 30103 / 100000 + 1

/-- The decimal with the fewest digits that is read back as this number.  Twenty grids are enough,
    because seventeen digits always tell two 64-bit numbers apart. -/
def shortest (b : Binary) : Decimal :=
  if b.mantissa = 0 then ⟨0, 0⟩
  else ((List.range 20).findSome? fun (i : Nat) => b.onGrid (b.gridTop - i)).getD ⟨0, 0⟩

end Binary

end Decimal

end LayerGraph
