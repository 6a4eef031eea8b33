/-! # Joining texts -/

namespace LayerGraph.Text

/-- The texts one after the other, with `separator` between each two of them. -/
def join (separator : String) : List String → String
  | [] => ""
  | [s] => s
  | s :: t :: rest => s ++ separator ++ join separator (t :: rest)

end LayerGraph.Text
