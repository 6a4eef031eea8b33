import LayerGraph.Decimal.Layout

/-! # Numbers

A number is an integer or a floating-point number.  The two never mix: `100` and `100.0` are
different numbers with different texts. -/

namespace LayerGraph

/-- A number as it appears in a request or a parameter. -/
inductive Number where
  | int (n : Int)
  | float (x : Float)
deriving DecidableEq, Repr

namespace Number

/-- Floating-point numbers from `0.00001` up to, but without, `10 ^ 16` are written without an
    exponent. -/
def layout : Decimal.Layout := ⟨-5, 15⟩

/-- The text of a floating-point number: the fewest digits that are read back as the number. -/
def floatText (x : Float) : String :=
  let magnitude := layout.write (Decimal.Binary.ofFloat x).shortest
  String.ofList (if Decimal.isNegative x then '-' :: magnitude else magnitude)

/-- The text of a number.  It is the same in a literal, in a node id and in JSON. -/
def text : Number → String
  | int n => Decimal.integerText n
  | float x => floatText x

end Number

end LayerGraph
