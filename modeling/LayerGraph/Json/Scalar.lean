import LayerGraph.Json.Numeral
import LayerGraph.Json.Text
import LayerGraph.Value

/-! # JSON values that hold no other values

`scalar` reads `null`, a truth value, a number or a string.  A text that holds the wrong kind of
value is read as well before it is refused, so that a text which is not JSON is reported as such:
`wrongType` gives the fault. -/

namespace LayerGraph.Json

/-- Reads the rest of a string whose opening quote `c` has been read. -/
def stringAfter (c : Char) (rest : List Char) :
    Except Fault (Parsed String (c :: rest).length) := do
  let p ← stringBody rest
  return p.past c

/-- Reads a value that is neither an array nor an object. -/
def scalar : Reader Value
  | [] => .error .truncated
  | c :: rest =>
    if c = 'n' then word .null "ull".toList c rest
    else if c = 't' then word (.bool true) "rue".toList c rest
    else if c = 'f' then word (.bool false) "alse".toList c rest
    else if c = '"' then do
      let p ← stringAfter c rest
      return p.map .text
    else if c = '-' ∨ c.isDigit then do
      let p ← number (c :: rest)
      return p.map .number
    else .error .malformed

/-- The fault of a text that starts with a value of the wrong type. -/
def wrongType (cs : List Char) : Fault :=
  match cs with
  | '[' :: _ => .mismatched
  | '{' :: _ => .mismatched
  | _ => match scalar cs with
    | .error fault => fault
    | .ok _ => .mismatched

/-- Reads a string. -/
def string : Reader String := Reader.afterBlanks fun
  | '"' :: rest => stringAfter '"' rest
  | cs => .error (wrongType cs)

/-- Reads a string where the grammar has room for nothing else, so that any other value is malformed
    and not of the wrong type. -/
def quoted : Reader String := fun cs => do
  let ⟨c, rest, h⟩ ← front cs
  if c = '"' then
    let ⟨text, rest', h'⟩ ← stringBody rest
    return ⟨text, rest', by omega⟩
  else throw .malformed

/-- Reads `null` as nothing, and anything else with `read`. -/
def nullable {α : Type} (read : Reader α) : Reader (Option α) := Reader.afterBlanks fun
  | 'n' :: rest => word none "ull".toList 'n' rest
  | cs => (read.map some) cs

end LayerGraph.Json
