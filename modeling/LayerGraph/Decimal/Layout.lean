import LayerGraph.Decimal.Shortest

/-! # Decimal text

Two ways to write a decimal number: positionally (`0.0015`, `250.0`) or with an exponent
(`1.5e-7`, `1e+16`).  A `Layout` says which magnitudes are written positionally. -/

namespace LayerGraph.Decimal

/-- The decimal digits of a natural number. -/
def digitsOf (n : Nat) : List Char := Nat.toDigits 10 n

/-- An integer in decimal, with a sign only if it is negative. -/
def integerText : Int → String
  | .ofNat n => String.ofList (digitsOf n)
  | .negSucc n => String.ofList ('-' :: digitsOf (n + 1))

/-- The numbers that are written positionally: those whose first digit stands for a power of ten
    with an exponent from `least` to `greatest`. -/
structure Layout where
  least : Int
  greatest : Int

/-- A decimal point after the place of `10 ^ 0`, with at least one digit on both sides.  The first
    of the digits stands for `10 ^ lead`. -/
def positional (digits : List Char) (lead : Int) : List Char :=
  if lead < 0 then
    '0' :: '.' :: (List.replicate (-lead - 1).toNat '0' ++ digits)
  else
    let places := lead.toNat + 1
    let whole := digits.take places ++ List.replicate (places - digits.length) '0'
    let fraction := digits.drop places
    whole ++ '.' :: (if fraction.isEmpty then ['0'] else fraction)

/-- One digit before the point, then the exponent of the first digit with its sign.  A single digit
    has no point. -/
def scientific (digits : List Char) (lead : Int) : List Char :=
  let significand := match digits with
    | d :: e :: rest => d :: '.' :: e :: rest
    | short => short
  significand ++ 'e' :: (if lead < 0 then '-' else '+') :: digitsOf lead.natAbs

/-- The text of a decimal number in this layout. -/
def Layout.write (layout : Layout) (d : Decimal) : List Char :=
  let digits := digitsOf d.digits
  let lead := d.exponent + digits.length - 1
  if layout.least ≤ lead ∧ lead ≤ layout.greatest then positional digits lead
  else scientific digits lead

end LayerGraph.Decimal
