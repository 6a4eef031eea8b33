import LayerGraph.Json.Text
import LayerGraph.Text.Join

/-! # Writing JSON text

Compact JSON: no blanks anywhere. -/

namespace LayerGraph.Json

/-- An array of elements that are already written. -/
def arrayText (elements : List String) : String := "[" ++ Text.join "," elements ++ "]"

/-- An object whose members have values that are already written. -/
def objectText (members : List (String × String)) : String :=
  "\x7b" ++ Text.join "," (members.map fun m => quote m.1 ++ ":" ++ m.2) ++ "\x7d"

/-- A value that may be absent. -/
def optionText {α : Type} (write : α → String) : Option α → String
  | none => "null"
  | some a => write a

end LayerGraph.Json
