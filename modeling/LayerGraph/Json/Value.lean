import LayerGraph.Json.Compound
import LayerGraph.Json.Writer

/-! # Parameter values in JSON

A parameter value is any JSON value that holds no object.  It is read whole before it is judged. -/

namespace LayerGraph.Json

/-- Reads any JSON value with at most `depth` nested brackets.  The result is nothing if there is
    an object in it. -/
def anyValue (depth : Nat) : Reader (Option Value) := Reader.afterBlanks fun
  | '[' :: rest => match depth with
    | 0 => .error .malformed
    | depth + 1 => do
      let p ← elements (anyValue depth) true rest
      return (p.map fun items => (items.mapM id).map .seq).past '['
  | '{' :: rest => match depth with
    | 0 => .error .malformed
    | depth + 1 => do
      let p ← members (fun _ _ => .ok ((anyValue depth).map fun _ => ())) true () rest
      return (p.map fun _ => none).past '{'
  | cs => (scalar.map some) cs

/-- Reads a parameter value. -/
def value (depth : Nat) : Reader Value := (anyValue depth).check id

/-- Reads the parameters of a layer.  A name that comes again takes the later value. -/
def parameters (depth : Nat) : Reader Parameters :=
  object (inside depth fun depth params name => .ok ((value depth).map (params.insert name))) ∅

mutual
/-- A value as compact JSON text. -/
def valueText : Value → String
  | .null => "null"
  | .bool true => "true"
  | .bool false => "false"
  | .number n => n.text
  | .text s => quote s
  | .seq items => arrayText (valueTexts items)

/-- Several values as compact JSON texts. -/
def valueTexts : List Value → List String
  | [] => []
  | v :: vs => valueText v :: valueTexts vs
end

/-- The parameters of a layer as compact JSON text. -/
def parametersText (params : Parameters) : String :=
  objectText (params.entries.map fun e => (e.1, valueText e.2))

end LayerGraph.Json
