import LayerGraph.Number
import LayerGraph.OrderedMap

/-! # Parameter values

A layer parameter holds a scalar or a sequence of values, nested to any depth. -/

namespace LayerGraph

/-- The value of a layer parameter. -/
inductive Value where
  | null
  | bool (b : Bool)
  | number (n : Number)
  | text (s : String)
  | seq (items : List Value)
deriving Repr, Inhabited

namespace Value

mutual
/-- Decides whether two values are equal. -/
def decEq : (a b : Value) → Decidable (a = b)
  | .null, .null => isTrue rfl
  | .bool a, .bool b => decidable_of_iff (a = b) (by simp)
  | .number a, .number b => decidable_of_iff (a = b) (by simp)
  | .text a, .text b => decidable_of_iff (a = b) (by simp)
  | .seq as, .seq bs => @decidable_of_iff _ (as = bs) (by simp) (decEqAll as bs)
  | .null, .bool _ | .null, .number _ | .null, .text _ | .null, .seq _ => isFalse nofun
  | .bool _, .null | .bool _, .number _ | .bool _, .text _ | .bool _, .seq _ => isFalse nofun
  | .number _, .null | .number _, .bool _ | .number _, .text _ | .number _, .seq _ => isFalse nofun
  | .text _, .null | .text _, .bool _ | .text _, .number _ | .text _, .seq _ => isFalse nofun
  | .seq _, .null | .seq _, .bool _ | .seq _, .number _ | .seq _, .text _ => isFalse nofun

/-- Decides whether two lists of values are equal. -/
def decEqAll : (as bs : List Value) → Decidable (as = bs)
  | [], [] => isTrue rfl
  | a :: as, b :: bs => @decidable_of_iff _ (a = b ∧ as = bs) (by simp)
      (@instDecidableAnd _ _ (decEq a b) (decEqAll as bs))
  | [], _ :: _ | _ :: _, [] => isFalse nofun
end

instance : DecidableEq Value := decEq

/-- A floating-point number as a parameter value.  Infinities and NaN have no literal in a
    generated program and become `null`. -/
def ofFloat (x : Float) : Value :=
  if x.isFinite then .number (.float x) else .null

/-- An integer as a parameter value. -/
def ofInt (n : Int) : Value := .number (.int n)

end Value

/-- The parameters of a layer, by name, in the order in which they were first given. -/
abbrev Parameters := OrderedMap String Value

end LayerGraph
